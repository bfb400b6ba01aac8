/-
What the create handlers build: the attributes of the object a body becomes. An attribute the body
carries itself comes first and is the one that is read.
-/
import TinyIoT.Resource.Container
import TinyIoT.Server.Resolve

namespace TinyIoT

theorem bind_ok {ε α β : Type} {x : Except ε α} {f : α → Except ε β} {b : β} (h : x >>= f = .ok b) :
    ∃ a, x = .ok a ∧ f a = .ok b := by
  cases x with
  | error e => cases h
  | ok a => exact ⟨a, rfl, h⟩

/-! ## The general attributes -/

/-- The attributes `add_general_attribute` gives a resource that does not have them. -/
def generalAttr (env : Env) (ty : ResourceType) (ri pi : CStr) : Attr → Option Json
  | .ty => some (.int ty.code)
  | .ct => some (.str env.now)
  | .ri => some (.str ri)
  | .rn => some (.str ri)
  | .lt => some (.str env.now)
  | .pi => some (.str pi)
  | .et => some (.str env.expireAt)
  | _ => none

theorem get_addMissing (o : Obj) (k k' : Attr) (v : Json) :
    (if o.has k then o else o.add k v).get k' = (o.get k').or (if k = k' then some v else none) := by
  by_cases h : o.has k = true
  · rw [if_pos h]
    obtain ⟨w, hw⟩ := Assoc.has_iff.mp h
    by_cases hk : k = k'
    · subst hk
      simp [Obj.get, hw]
    · simp [hk]
  · rw [if_neg h]
    exact Assoc.get_add _ _ _ _

theorem addGeneralAttribute_some {env : Env} {o o' parent : Obj} {ty : ResourceType} {n n' : Nat}
    (h : addGeneralAttribute env o parent ty n = some (o', n')) :
    ∃ pi, parent.str .ri = some pi ∧
      ∀ k, o'.get k = (o.get k).or (generalAttr env ty (resourceIdentifier ty env.now n).1 pi k) := by
  unfold addGeneralAttribute at h
  simp only [Option.bind_eq_bind, Option.bind_eq_some_iff, Option.pure_def, Option.some.injEq, Prod.mk.injEq] at h
  obtain ⟨pi, hpi, rfl, -⟩ := h
  refine ⟨pi, hpi, fun k => ?_⟩
  rw [get_addMissing]
  show Option.or (Assoc.get (Assoc.add _ _ _) _) _ = _
  rw [Assoc.get_add]
  show Option.or (Option.or (Assoc.get (Assoc.add _ _ _) _) _) _ = _
  rw [Assoc.get_add]
  show Option.or (Option.or (Option.or (Obj.get _ _) _) _) _ = _
  rw [get_addMissing]
  simp only [Obj.get, Obj.add, Assoc.get_add, Option.or_assoc]
  congr 1
  unfold generalAttr
  cases k <;> rfl

theorem entries_addMissing {o : Obj} {k k' : Attr} {v : Json} (h : k ≠ k') :
    Assoc.entries (if o.has k then o else o.add k v) k' = Assoc.entries o k' := by
  split
  · rfl
  · exact Assoc.entries_add_ne h

theorem entries_addGeneralAttribute {env : Env} {o o' parent : Obj} {ty : ResourceType} {n n' : Nat} {k : Attr}
    (hk : k ∉ [Attr.ty, .ct, .ri, .rn, .lt, .pi, .et]) (h : addGeneralAttribute env o parent ty n = some (o', n')) :
    Assoc.entries o' k = Assoc.entries o k := by
  simp only [List.mem_cons, List.not_mem_nil, or_false, not_or] at hk
  obtain ⟨h1, h2, h3, h4, h5, h6, h7⟩ := hk
  unfold addGeneralAttribute at h
  simp only [Option.bind_eq_bind, Option.bind_eq_some_iff, Option.pure_def, Option.some.injEq, Prod.mk.injEq] at h
  obtain ⟨pi, -, rfl, -⟩ := h
  rw [entries_addMissing (Ne.symm h7), Assoc.entries_add_ne (Ne.symm h6), Assoc.entries_add_ne (Ne.symm h5),
    entries_addMissing (Ne.symm h4), Assoc.entries_add_ne (Ne.symm h3), Assoc.entries_add_ne (Ne.symm h2),
    Assoc.entries_add_ne (Ne.symm h1)]

/-! ## The place of a new resource -/

/-- Nothing in the tree or in the database goes by this identifier. -/
def Unused (s : Server) (ri : CStr) : Prop :=
  (∀ n ∈ s.tree.nodes, n.ri ≠ some ri) ∧ ∀ r ∈ s.db, r.ri ≠ some ri ∧ r.pi ≠ some ri

theorem resourceIdentifier_ne_nil (ty : ResourceType) (ct : CStr) (n : Nat) :
    (resourceIdentifier ty ct n).1 ≠ [] := by
  unfold resourceIdentifier pad4
  simp

instance (s : Server) (ri : CStr) : Decidable (Unused s ri) :=
  inferInstanceAs (Decidable ((∀ n ∈ s.tree.nodes, _) ∧ ∀ r ∈ s.db, _))

/-- The attributes only the CSE may set, as far as they steer where a resource is stored. -/
def placing : List Attr := [.ty, .ri, .pi, .uri]

/-- A new resource gets an identifier of its own: the body does not place it, and the generated one is
not in use. -/
def Placed (env : Env) (s : Server) (req : Req) (ty : ResourceType) : Prop :=
  (∀ k ∈ placing, req.pc.has k = false) ∧ Unused s (resourceIdentifier ty env.now s.riCount).1

instance (env : Env) (s : Server) (req : Req) (ty : ResourceType) : Decidable (Placed env s req ty) :=
  inferInstanceAs (Decidable ((∀ k ∈ placing, _) ∧ _))

theorem Placed.get {env : Env} {s : Server} {req : Req} {ty : ResourceType} (h : Placed env s req ty) {k : Attr}
    (hk : k ∈ placing) : req.pc.get k = none :=
  Assoc.has_eq_false.mp (h.1 k hk)

/-! ## Attributes the handlers touch -/

theorem get_validateAa {op : Operation} {o : Obj} {ty : ResourceType} {k : Attr} (h : k ≠ .aa) :
    (validateAa op o ty).get k = o.get k := by
  unfold validateAa
  split
  · rfl
  · rfl
  · dsimp only
    split
    · exact Assoc.get_set_ne (Ne.symm h)
    · split
      · exact Assoc.get_set_ne (Ne.symm h)
      · exact Assoc.get_del_ne (Ne.symm h)

theorem entries_validateAa {op : Operation} {o : Obj} {ty : ResourceType} {k : Attr} (h : k ≠ .aa) :
    Assoc.entries (validateAa op o ty) k = Assoc.entries o k := by
  unfold validateAa
  split
  · rfl
  · rfl
  · dsimp only
    split
    · exact Assoc.entries_set_ne (Ne.symm h)
    · split
      · exact Assoc.entries_set_ne (Ne.symm h)
      · exact Assoc.entries_del_ne (Ne.symm h)

theorem entries_assignCreator {req : Req} {o o' : Obj} {k : Attr} (h : assignCreator req o = .ok o') (hk : k ≠ .cr) :
    Assoc.entries o' k = Assoc.entries o k := by
  unfold assignCreator at h
  split at h
  · cases h; rfl
  · cases h
    exact (Assoc.entries_add_ne (Ne.symm hk)).trans (Assoc.entries_del_ne (Ne.symm hk))
  · cases h

theorem get_assignCreator {req : Req} {o o' : Obj} {k : Attr} (h : assignCreator req o = .ok o') (hk : k ≠ .cr) :
    o'.get k = o.get k := by
  unfold assignCreator at h
  split at h
  · cases h; rfl
  · cases h
    exact (Assoc.get_add_ne (Ne.symm hk)).trans (Assoc.get_del_ne (Ne.symm hk))
  · cases h

theorem get_announceAt {env : Env} {o : Obj} {k : Attr} (hk : k ≠ .at) : (announceAt env o).get k = o.get k := by
  unfold announceAt
  dsimp only
  split
  · exact (Assoc.get_add_ne (Ne.symm hk)).trans (Assoc.get_del_ne (Ne.symm hk))
  · exact Assoc.get_del_ne (Ne.symm hk)

theorem entries_announceAt {env : Env} {o : Obj} {k : Attr} (hk : k ≠ .at) :
    Assoc.entries (announceAt env o) k = Assoc.entries o k := by
  unfold announceAt
  dsimp only
  split
  · rw [Assoc.entries_add_ne (Ne.symm hk), Assoc.entries_del_ne (Ne.symm hk)]
  · exact Assoc.entries_del_ne (Ne.symm hk)

/-! ## Containers and content instances -/

theorem validateCnt_rn {now : CStr} {s : Server} {o : Obj} {op : Operation} (h : validateCnt now s o op = .ok ()) :
    (o.str .rn).any isReservedName = false := by
  unfold validateCnt checkCntNames at h
  obtain ⟨⟨⟩, h, -⟩ := bind_ok h
  obtain ⟨-, -, h⟩ := bind_ok h
  by_contra hr
  rw [Bool.not_eq_false] at hr
  rw [hr] at h
  cases h

theorem validateCin_rn {parent o : Obj} {op : Operation} (h : validateCin parent o op = .ok ()) :
    (o.str .rn).any isReservedName = false := by
  unfold validateCin at h
  obtain ⟨-, -, h⟩ := bind_ok h
  by_contra hr
  rw [Bool.not_eq_false] at hr
  rw [hr] at h
  cases h

theorem mem_validateAa {op : Operation} {o : Obj} {ty : ResourceType} {e : Attr × Json}
    (h : e ∈ validateAa op o ty) : e ∈ o ∨ e.1 = .aa := by
  unfold validateAa at h
  split at h
  · exact .inl h
  · exact .inl h
  · dsimp only at h
    split at h
    · exact (Assoc.mem_set h).imp_right fun he => by rw [he]
    · split at h
      · exact (Assoc.mem_set h).imp_right fun he => by rw [he]
      · exact .inl (Assoc.mem_of_mem_del h)

/-- What is left of a body by the treatment of `at`. -/
theorem processAnncAtUpdate_cases (kept : Json → List Json) (target body : Obj) :
    (processAnncAtUpdate kept target body).1 = body ∨ (processAnncAtUpdate kept target body).1 = body.del .at ∨
      ∃ v, (processAnncAtUpdate kept target body).1 = (body.del .at).add .at v := by
  unfold processAnncAtUpdate
  split
  · exact .inl rfl
  · split
    · exact .inr (.inr ⟨_, rfl⟩)
    · split
      · exact .inl rfl
      · exact .inr (.inl rfl)
  · split
    · exact .inr (.inr ⟨_, rfl⟩)
    · exact .inr (.inr ⟨_, rfl⟩)

theorem entries_processAnncAtUpdate {kept : Json → List Json} {target body : Obj} {k : Attr} (hk : k ≠ .at) :
    Assoc.entries (processAnncAtUpdate kept target body).1 k = Assoc.entries body k := by
  rcases processAnncAtUpdate_cases kept target body with h | h | ⟨v, h⟩ <;> rw [h]
  · exact Assoc.entries_del_ne (Ne.symm hk)
  · exact (Assoc.entries_add_ne (Ne.symm hk)).trans (Assoc.entries_del_ne (Ne.symm hk))

theorem get_processAnncAtUpdate {kept : Json → List Json} {target body : Obj} {k : Attr} (hk : k ≠ .at) :
    (processAnncAtUpdate kept target body).1.get k = body.get k :=
  Assoc.get_congr (entries_processAnncAtUpdate hk)

theorem mem_processAnncAtUpdate {kept : Json → List Json} {target body : Obj} {e : Attr × Json}
    (h : e ∈ (processAnncAtUpdate kept target body).1) : e ∈ body ∨ e.1 = .at := by
  rcases processAnncAtUpdate_cases kept target body with hc | hc | ⟨v, hc⟩ <;> rw [hc] at h
  · exact .inl h
  · exact .inl (Assoc.mem_of_mem_del h)
  · exact (Assoc.mem_add h).elim (fun h => .inl (Assoc.mem_of_mem_del h)) fun he => .inr (by rw [he])

/-- What `create_cnt` stores, for a body without counters. -/
theorem buildCnt_ok {env : Env} {req : Req} {s : Server} {cnt o : Obj} (h : buildCnt env req s cnt = .ok o) :
    (∀ k ∉ [Attr.aa, .cr, .st, .cni, .cbs, .at, .mni], o.get k = cnt.get k) ∧
      (cnt.get .cni = none → o.get .cni = some (.int 0)) ∧ (cnt.get .cbs = none → o.get .cbs = some (.int 0)) ∧
      (cnt.str .rn).any isReservedName = false := by
  unfold buildCnt at h
  obtain ⟨⟨⟩, hv, h⟩ := bind_ok h
  obtain ⟨o₁, hcr, h⟩ := bind_ok h
  cases h
  have hget : ∀ k, k ≠ .aa → k ≠ .cr → o₁.get k = cnt.get k :=
    fun k h1 h2 => (get_assignCreator hcr h2).trans (get_validateAa h1)
  have hmni : ∀ (x : Obj) k, k ≠ .mni →
      (if x.has .mni then x else x.add .mni (.int defaultMaxNrInstances)).get k = x.get k := by
    intro x k hk
    rw [get_addMissing, if_neg (Ne.symm hk), Option.or_none]
  refine ⟨?_, ?_, ?_, validateCnt_rn hv⟩
  · intro k hk
    simp only [List.mem_cons, List.not_mem_nil, or_false, not_or] at hk
    obtain ⟨h1, h2, h3, h4, h5, h6, h7⟩ := hk
    rw [hmni _ _ h7, get_announceAt h6, ← hget k h1 h2]
    simp [Ne.symm h3, Ne.symm h4, Ne.symm h5]
  · intro hn
    rw [hmni _ _ (by decide), get_announceAt (by decide)]
    have := (hget .cni (by decide) (by decide)).trans hn
    simp [this]
  · intro hn
    rw [hmni _ _ (by decide), get_announceAt (by decide)]
    have := (hget .cbs (by decide) (by decide)).trans hn
    simp [this]

/-- What `create_cin` stores, for a body without a size. -/
theorem buildCin_ok {env : Env} {req : Req} {parent cin o : Obj} {st : Int}
    (h : buildCin env req parent st cin = .ok o) :
    (∀ k ∉ [Attr.aa, .cr, .st, .cs, .at], o.get k = cin.get k) ∧
      (cin.get .cs = none → o.get .cs = (cin.str .con).map fun con => .int con.length) ∧
      (cin.str .rn).any isReservedName = false := by
  unfold buildCin at h
  obtain ⟨⟨⟩, hv, h⟩ := bind_ok h
  obtain ⟨o₁, hcr, h⟩ := bind_ok h
  cases h
  have hcs : ∀ k, k ≠ .cs → (addContentSize cin).get k = cin.get k := by
    intro k hk
    unfold addContentSize
    split
    · exact Assoc.get_add_ne (Ne.symm hk)
    · rfl
  refine ⟨?_, ?_, ?_⟩
  · intro k hk
    simp only [List.mem_cons, List.not_mem_nil, or_false, not_or] at hk
    obtain ⟨h1, h2, h3, h4, h5⟩ := hk
    rw [get_announceAt h5, get_assignCreator hcr h2, get_validateAa h1]
    exact (Assoc.get_add_ne (Ne.symm h3)).trans (hcs k h4)
  · intro hn
    rw [get_announceAt (by decide), get_assignCreator hcr (by decide), get_validateAa (by decide)]
    refine (Assoc.get_add_ne (by decide)).trans ?_
    unfold addContentSize
    cases hc : cin.str .con with
    | none => exact hn
    | some con =>
      have hn' : Assoc.get cin .cs = none := hn
      simp [hn']
  · have hrn := validateCin_rn hv
    rw [← hrn]
    refine congrArg _ (Obj.str_congr ?_).symm
    exact (Assoc.get_add_ne (by decide)).trans (hcs .rn (by decide))

/-! ## Storing -/

/-- The node and the row that the end of a create handler makes, for a resource that carries its own `ty`. -/
theorem storeResource_node {s s' : Server} {parent : RTNode} {o : Obj} {ty : ResourceType} {resp : Resp}
    (ht : ty ∈ ResourceType.tables) (hcsr : ty ≠ .csr) (hsub : ty ≠ .sub) (hty : o.get .ty = some (.int ty.code))
    (he : s.storeResource parent o ty = some (s', resp)) :
    ∃ n, createRtnode s.nextId o ty = some n ∧ s' = { s with
        tree := s.tree.graft (RTNode.hasId parent.id) (insertChild { n with uri := parent.uri ++ '/' :: n.rn }),
        db := s.db ++ [⟨parent.uri ++ '/' :: n.rn, ty, Assoc.drop (Assoc.overlay column o []) .uri⟩],
        nextId := s.nextId + 1 } := by
  unfold Server.storeResource at he
  simp only [Option.bind_eq_bind] at he
  obtain ⟨rn, hrn, he⟩ := Option.bind_eq_some_iff.mp he
  rw [(Db.dbStoreResource_code ht hty).mpr rfl] at he
  obtain ⟨n, hn, he⟩ := Option.bind_eq_some_iff.mp he
  cases he
  obtain ⟨-, hnty, hnrn, -⟩ := createRtnode_some hn
  obtain rfl : rn = n.rn := Option.some.inj (hrn.symm.trans hnrn)
  rw [Server.addChildResourceTree_plain (hnty ▸ hcsr) (hnty ▸ hsub)]
  exact ⟨n, hn, rfl⟩

/-- What the end of a create handler leaves, for a resource that carries its own `ty`. -/
theorem storeResource_some {s s' : Server} {parent : RTNode} {o : Obj} {ty : ResourceType} {resp : Resp}
    (ht : ty ∈ ResourceType.tables) (hcsr : ty ≠ .csr) (hsub : ty ≠ .sub) (hty : o.get .ty = some (.int ty.code))
    (he : s.storeResource parent o ty = some (s', resp)) :
    ∃ x rn, o.str .rn = some rn ∧ x.id = s.nextId ∧ x.ty = ty ∧ x.rn = rn ∧ x.uri = parent.uri ++ '/' :: rn ∧
      x.subs = [] ∧ (∀ k ∉ rewritten, x.obj.get k = o.get k) ∧ x.obj.get .uri = (o.del .uri).get .uri ∧
      s' = { s with
        tree := s.tree.graft (RTNode.hasId parent.id) (insertChild x),
        db := s.db ++ [⟨parent.uri ++ '/' :: rn, ty, Assoc.drop (Assoc.overlay column o []) .uri⟩],
        nextId := s.nextId + 1 } := by
  obtain ⟨n, hn, rfl⟩ := storeResource_node ht hcsr hsub hty he
  obtain ⟨hid, hnty, hnrn, -, -, hsubs, -, hattr, huri⟩ := createRtnode_some hn
  exact ⟨{ n with uri := parent.uri ++ '/' :: n.rn }, n.rn, hnrn, hid, hnty, rfl, rfl, hsubs, hattr, huri, rfl⟩

/-- The end of `create_cin` without a child `la`: the new node becomes it. -/
theorem cacheLatest_new {s : Server} {parent x : RTNode} (hty : x.ty = .cin) (hid : ∀ a ∈ s.tree.nodes, a.id ≠ x.id)
    (hla : (s.children parent.id).roots.find? (fun c => c.rn = "la".toList) = none) :
    s.cacheLatest parent x = { s with
      tree := s.tree.graft (RTNode.hasId parent.id)
        (insertChild { x with uri := parent.uri ++ '/' :: x.rn, rn := "la".toList }) } := by
  unfold Server.cacheLatest
  rw [hla]
  dsimp only
  rw [Server.addChildResourceTree_plain (by rw [hty]; decide) (by rw [hty]; decide)]
  unfold Server.modifyNode
  congr 1
  -- renaming after linking is linking the renamed node
  refine (Forest.modify_graft ?_ (modify_insertChild ?_ ?_) s.tree).trans ?_
  · exact fun _ => rfl
  · exact fun _ => rfl
  · exact hasId_iff.mpr rfl
  rw [Forest.modify_eq_self]
  intro a ha
  simpa [RTNode.hasId] using hid a ha

/-- The end of `create_cin` works on the tree only. -/
theorem cacheLatest_db (s : Server) (parent : RTNode) {x : RTNode} (hty : x.ty = .cin) :
    (s.cacheLatest parent x).db = s.db := by
  unfold Server.cacheLatest
  split
  · rfl
  · rw [Server.modifyNode_db, Server.addChildResourceTree_plain (by rw [hty]; decide) (by rw [hty]; decide)]

/-- What the end of `create_cin` does: the child `la` takes the object over, or the new node becomes it. -/
theorem cacheLatest_cases {s : Server} (parent : RTNode) {x : RTNode} (hty : x.ty = .cin)
    (hid : ∀ a ∈ s.tree.nodes, a.id ≠ x.id) :
    (∃ la ∈ s.tree.nodes, la.rn = "la".toList ∧ s.cacheLatest parent x = s.setObj la.id x.obj) ∨
    ((∀ m ∈ (s.children parent.id).roots, m.rn ≠ "la".toList) ∧ s.cacheLatest parent x = { s with
      tree := s.tree.graft (RTNode.hasId parent.id)
        (insertChild { x with uri := parent.uri ++ '/' :: x.rn, rn := "la".toList }) }) := by
  cases hla : (s.children parent.id).roots.find? (fun c => c.rn = "la".toList) with
  | some la =>
    refine .inl ⟨la, Server.mem_of_mem_children (List.mem_of_find?_eq_some hla), by simpa using List.find?_some hla, ?_⟩
    unfold Server.cacheLatest
    rw [hla]
  | none => exact .inr ⟨fun m hm => by simpa using List.find?_eq_none.mp hla m hm, cacheLatest_new hty hid hla⟩

end TinyIoT
