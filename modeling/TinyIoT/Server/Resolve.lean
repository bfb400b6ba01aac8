/-
What a lookup returns: a pointer into the tree, or a node that was made from a row of the database and
carries its attributes.
-/
import TinyIoT.Server.Lookup
import TinyIoT.Server.Rows
import TinyIoT.Server.Tree

namespace TinyIoT

/-! ## Nodes made from objects -/

/-- The attributes `create_rtnode` takes out of the object or rewrites. -/
def rewritten : List Attr := [.uri, .memberOf, .rr, .mtv, .mdd]

theorem get_boolify_ne {o : Obj} {k k' : Attr} (h : k ≠ k') : (boolify o k).get k' = o.get k' := by
  unfold boolify
  split
  · rfl
  · rfl
  · exact Assoc.get_set_ne h

theorem get_rewritten {o : Obj} {k : Attr} (h : k ∉ rewritten) :
    (boolify (boolify (boolify ((o.del .uri).del .memberOf) .rr) .mtv) .mdd).get k = o.get k := by
  simp only [rewritten, List.mem_cons, List.not_mem_nil, or_false, not_or] at h
  rw [get_boolify_ne (Ne.symm h.2.2.2.2), get_boolify_ne (Ne.symm h.2.2.2.1),
    get_boolify_ne (Ne.symm h.2.2.1)]
  show Assoc.get (Assoc.del _ _) _ = _
  rw [Assoc.get_del_ne (Ne.symm h.2.1), Assoc.get_del_ne (Ne.symm h.1)]

/-- What `create_rtnode` reads of the address. -/
theorem uri_read {o : Obj} {uri : CStr} (h : (o.get .uri).elim (some []) Json.valuestring = some uri) :
    uri = (o.str .uri).getD [] := by
  unfold Obj.str
  cases hv : o.get .uri with
  | none =>
    rw [hv] at h
    exact (Option.some.inj h).symm
  | some v =>
    rw [hv] at h
    rw [Option.bind_some, show v.valuestring = some uri from h]
    rfl

/-- What `create_rtnode` makes. -/
theorem createRtnode_some {id : Nat} {o : Obj} {ty : ResourceType} {n : RTNode}
    (h : createRtnode id o ty = some n) :
    n.id = id ∧ n.ty = ty ∧ o.str .rn = some n.rn ∧ n.uri = (o.str .uri).getD [] ∧
      n.memberOf = (o.arr .memberOf).filterMap Json.valuestring ∧ n.subs = [] ∧ n.subCnt = 0 ∧
      (∀ k ∉ rewritten, n.obj.get k = o.get k) ∧ n.obj.get .uri = (o.del .uri).get .uri := by
  unfold createRtnode at h
  simp only [Option.bind_eq_bind, Option.bind_eq_some_iff, Option.pure_def, Option.some.injEq] at h
  obtain ⟨uri, huri, rn, hrn, rfl⟩ := h
  refine ⟨rfl, rfl, ?_, uri_read huri, rfl, rfl, rfl, fun k hk => get_rewritten hk, ?_⟩
  · unfold Obj.str at hrn ⊢
    rwa [get_rewritten (by decide)] at hrn
  · rw [get_boolify_ne (by decide), get_boolify_ne (by decide), get_boolify_ne (by decide)]
    exact Assoc.get_del_ne (by decide)

theorem createRtnode_isSome {o : Obj} {rn uri : CStr} (h : o.str .rn = some rn) (hu : o.get .uri = some (.str uri)) (id : Nat)
    (ty : ResourceType) : ∃ n, createRtnode id o ty = some n := by
  unfold createRtnode
  have hrn : Obj.str (boolify (boolify (boolify ((o.del .uri).del .memberOf) .rr) .mtv) .mdd) .rn = some rn :=
    (Obj.str_congr (get_rewritten (by decide))).trans h
  simp only [hu, hrn]
  exact ⟨_, rfl⟩

theorem entries_boolify_ne {o : Obj} {k k' : Attr} (h : k ≠ k') : Assoc.entries (boolify o k) k' = Assoc.entries o k' := by
  unfold boolify
  split
  · rfl
  · rfl
  · exact Assoc.entries_set_ne h

theorem entries_createRtnode {id : Nat} {o : Obj} {ty : ResourceType} {n : RTNode} (h : createRtnode id o ty = some n)
    {k : Attr} (hk : k ∉ rewritten) : Assoc.entries n.obj k = Assoc.entries o k := by
  simp only [rewritten, List.mem_cons, List.not_mem_nil, or_false, not_or] at hk
  unfold createRtnode at h
  simp only [Option.bind_eq_bind, Option.bind_eq_some_iff, Option.pure_def, Option.some.injEq] at h
  obtain ⟨_, -, rn, -, rfl⟩ := h
  rw [entries_boolify_ne (Ne.symm hk.2.2.2.2), entries_boolify_ne (Ne.symm hk.2.2.2.1),
    entries_boolify_ne (Ne.symm hk.2.2.1), Assoc.entries_del_ne (Ne.symm hk.2.1), Assoc.entries_del_ne (Ne.symm hk.1)]

/-- `create_rtnode` of an object it need not rewrite. -/
theorem createRtnode_obj {id : Nat} {o : Obj} {ty : ResourceType} {n : RTNode} (h : createRtnode id o ty = some n)
    (hu : o.get .uri = none) (hm : o.get .memberOf = none)
    (hb : ∀ k ∈ [Attr.rr, .mtv, .mdd], (o.get k).all Json.isBool = true) : n.obj = o := by
  have hflag : ∀ k ∈ [Attr.rr, .mtv, .mdd], boolify o k = o := by
    intro k hk
    have h := hb k hk
    unfold boolify
    split
    · rfl
    · rfl
    · rename_i v hv hg
      rw [hg] at h
      cases v <;> first | exact absurd h Bool.false_ne_true | exact absurd rfl (hv _)
  unfold createRtnode at h
  simp only [Option.bind_eq_bind, Option.bind_eq_some_iff, Option.pure_def, Option.some.injEq] at h
  obtain ⟨_, -, rn, -, rfl⟩ := h
  have hdel : (o.del .uri).del .memberOf = o := by
    unfold Obj.del
    rw [Assoc.del_eq_self hu, Assoc.del_eq_self hm]
  dsimp only
  rw [hdel, hflag .rr (by simp), hflag .mtv (by simp), hflag .mdd (by simp)]

/-- A node that stands for a row of the database. -/
def FromRow (db : Db) (n : RTNode) : Prop :=
  ∃ r ∈ db, r.ty = n.ty ∧ n.uri = r.uri ∧ n.subs = [] ∧ (∀ k ∉ rewritten, n.obj.get k = r.obj.get k) ∧
    n.obj.get .uri = r.obj.get .uri

theorem get_load {r : Row} {k : Attr} (h : k ≠ .uri) : r.load.get k = r.obj.get k :=
  if_neg (Ne.symm h)

theorem fromRow_of_load {db : Db} {r : Row} {id : Nat} {n : RTNode} (hr : r ∈ db)
    (h : createRtnode id r.load r.ty = some n) : FromRow db n := by
  obtain ⟨-, ht, -, huri, -, hs, -, hk, hu⟩ := createRtnode_some h
  refine ⟨r, hr, ht.symm, huri, hs, fun k hk' => ?_, hu⟩
  rw [hk k hk']
  apply get_load
  rintro rfl
  exact hk' (by decide)

/-! ## What the lookups return -/

/-- The types whose resources are kept in the database rather than in the tree. -/
def isInstance (ty : ResourceType) : Prop := ty = .cin ∨ ty = .fcin ∨ ty = .tsi

/-- A pointer the server can hold: NULL, an address, or a node made from the row of an instance. -/
def Ptr.Ok (db : Db) : Ptr → Prop
  | .loose n _ => FromRow db n ∧ isInstance n.ty
  | _ => True

theorem Ptr.parent_ok {s : Server} {db : Db} {p : Ptr} (h : ∀ m q, p = .loose m q → q.Ok db) : (p.parent s).Ok db := by
  cases p with
  | null => trivial
  | loose m q => exact h m q rfl
  | inTree i =>
    unfold Ptr.parent
    dsimp only
    split <;> trivial

namespace Server

variable {s : Server}

theorem looseNode_ok {o : Option Obj} {ty : ResourceType} {p : Ptr} (hty : isInstance ty)
    (h : ∀ obj, o = some obj → ∃ r ∈ s.db, r.ty = ty ∧ obj = r.load) : (looseNode o ty p).Ok s.db := by
  unfold looseNode
  split
  · trivial
  · rename_i n hn
    obtain ⟨obj, ho, hc⟩ := Option.bind_eq_some_iff.mp hn
    obtain ⟨r, hr, rfl, rfl⟩ := h obj ho
    exact ⟨fromRow_of_load hr hc, (createRtnode_some hc).2.1 ▸ hty⟩

theorem dbGetLaol_some {db : Db} {ty : ResourceType} {pi : CStr} {b : Bool} {o : Obj}
    (h : db.dbGetLaol ty pi b = some o) : ∃ r ∈ db.instances ty pi, o = r.load := by
  unfold Db.dbGetLaol at h
  obtain ⟨r, hr, rfl⟩ := Option.map_eq_some_iff.mp h
  cases b
  · exact ⟨r, firstMin_mem hr, rfl⟩
  · exact ⟨r, lastMax_mem hr, rfl⟩

theorem laol_row {ty : ResourceType} {ri : Option CStr} {b : Bool} {o : Obj}
    (h : ri.bind (s.db.dbGetLaol ty · b) = some o) : ∃ r ∈ s.db, r.ty = ty ∧ o = r.load := by
  obtain ⟨pi, -, hpi⟩ := Option.bind_eq_some_iff.mp h
  obtain ⟨r, hr, rfl⟩ := dbGetLaol_some hpi
  obtain ⟨hr, ht, -⟩ := Db.mem_instances.mp hr
  exact ⟨r, hr, ht, rfl⟩

theorem byUri_row {ty : ResourceType} {addr : CStr} {o : Obj}
    (h : s.db.dbGetResourceByUri addr ty = some o) : ∃ r ∈ s.db, r.ty = ty ∧ o = r.load := by
  unfold Db.dbGetResourceByUri at h
  obtain ⟨r, hr, rfl⟩ := Option.map_eq_some_iff.mp h
  have hp := List.find?_some hr
  simp only [Bool.and_eq_true, decide_eq_true_eq] at hp
  exact ⟨r, List.mem_of_find?_eq_some hr, hp.2, rfl⟩

theorem findInstance_ok (parent : RTNode) {ty : ResourceType} (hty : isInstance ty) (name addr : CStr) :
    (s.findInstance parent ty name addr).Ok s.db := by
  unfold findInstance
  apply looseNode_ok hty
  intro obj ho
  split at ho
  · exact laol_row ho
  · split at ho
    · exact laol_row ho
    · exact byUri_row ho

theorem findBelow_ok (parent : RTNode) (name : CStr) (rest : List CStr) (addr : CStr) :
    (s.findBelow parent name rest addr).Ok s.db := by
  unfold findBelow
  split
  · split
    · trivial
    · split
      · exact findInstance_ok _ (.inl rfl) _ _
      · trivial
  · split
    · exact findInstance_ok _ (.inr (.inl rfl)) _ _
    · trivial
  · split
    · exact findInstance_ok _ (.inr (.inr rfl)) _ _
    · trivial
  · trivial

theorem findFrom_ok (addr : CStr) (w : Walk) : (s.findFrom addr w).Ok s.db := by
  unfold findFrom
  split
  · trivial
  · trivial
  · exact findBelow_ok _ _ _ _

theorem findRtnodeByRn_ok (addr : CStr) : (s.findRtnodeByRn addr).Ok s.db := by
  unfold findRtnodeByRn
  split
  · trivial
  · split
    · split
      · trivial
      · split
        · split <;> trivial
        · exact findFrom_ok _ _
    · exact findFrom_ok _ _

theorem findRtnodeByRi_ok (ri : CStr) : (s.findRtnodeByRi ri).Ok s.db := by
  unfold findRtnodeByRi
  split
  · split
    · trivial
    · rename_i n hn
      obtain ⟨obj, ho, hc⟩ := Option.bind_eq_some_iff.mp hn
      unfold Db.dbGetResource at ho
      obtain ⟨r, hr, rfl⟩ := Option.map_eq_some_iff.mp ho
      have hp := List.find?_some hr
      simp only [Bool.and_eq_true, decide_eq_true_eq] at hp
      exact ⟨fromRow_of_load (List.mem_of_find?_eq_some hr) (hp.2 ▸ hc), .inl (createRtnode_some hc).2.1⟩
  · split <;> trivial

theorem findChild_ok (p : Ptr) (name : CStr) : (s.findChild p name).Ok s.db := by
  unfold findChild
  split
  · split <;> trivial
  · trivial

theorem findVirtual_ok (p : Ptr) (n : RTNode) (name : CStr) : (s.findVirtual p n name).Ok s.db := by
  unfold findVirtual
  split
  · rename_i ty hty
    have hi : isInstance ty := by
      unfold instanceType at hty
      unfold isInstance
      split at hty <;> simp_all
    split
    · exact looseNode_ok hi fun _ ho => laol_row ho
    · split
      · exact looseNode_ok hi fun _ ho => laol_row ho
      · exact findChild_ok _ _
  · exact findChild_ok _ _

theorem findRtnodeByHybrid_ok (addr : CStr) : (s.findRtnodeByHybrid addr).Ok s.db := by
  unfold findRtnodeByHybrid
  split
  · trivial
  · split
    · trivial
    · dsimp only
      split
      · trivial
      · split
        · split
          · exact findRtnodeByRi_ok _
          · trivial
        · split
          · trivial
          · exact findVirtual_ok _ _ _

theorem resolve_ok (addr : CStr) : (s.resolve addr).Ok s.db := by
  unfold resolve
  split
  · split <;> trivial
  · split
    · exact findRtnodeByRn_ok _
    · split
      · exact findRtnodeByHybrid_ok _
      · exact findRtnodeByRi_ok _

/-! ## The parents of nodes outside the tree -/

theorem eq_of_looseNode {o : Option Obj} {ty : ResourceType} {p q : Ptr} {m : RTNode} (h : looseNode o ty p = .loose m q) :
    q = p := by
  unfold looseNode at h
  split at h
  · cases h
  · cases h; rfl

theorem findRtnodeByRn_parent {addr : CStr} {m : RTNode} {q : Ptr} (h : s.findRtnodeByRn addr = .loose m q) :
    ∃ i, q = .inTree i := by
  have hfrom : ∀ w : Walk, s.findFrom addr w = .loose m q → ∃ i, q = .inTree i := by
    intro w h
    unfold findFrom at h
    split at h
    · cases h
    · cases h
    · unfold findBelow findInstance at h
      split at h
      · split at h
        · cases h
        · split at h
          · exact ⟨_, eq_of_looseNode h⟩
          · cases h
      · split at h
        · exact ⟨_, eq_of_looseNode h⟩
        · cases h
      · split at h
        · exact ⟨_, eq_of_looseNode h⟩
        · cases h
      · cases h
  unfold findRtnodeByRn at h
  split at h
  · cases h
  · split at h
    · split at h
      · cases h
      · split at h
        · split at h <;> cases h
        · exact hfrom _ h
    · exact hfrom _ h

theorem findRtnodeByRi_parent {ri : CStr} {m : RTNode} {q : Ptr} (h : s.findRtnodeByRi ri = .loose m q) : q.Ok s.db := by
  unfold findRtnodeByRi at h
  split at h
  · split at h
    · cases h
    · cases h
      exact findRtnodeByRn_ok _
  · split at h <;> cases h

/-- The parent of what an address resolves to is a pointer the server can hold. -/
theorem resolve_parent_ok {addr : CStr} {m : RTNode} {q : Ptr} (h : s.resolve addr = .loose m q) : q.Ok s.db := by
  have hchild : ∀ (p : Ptr) (name : CStr), s.findChild p name ≠ .loose m q := by
    intro p name hc
    unfold findChild at hc
    split at hc
    · split at hc <;> cases hc
    · cases hc
  unfold resolve at h
  split at h
  · split at h <;> cases h
  · split at h
    · obtain ⟨i, rfl⟩ := findRtnodeByRn_parent h
      trivial
    · split at h
      · unfold findRtnodeByHybrid at h
        split at h
        · cases h
        · split at h
          · cases h
          · dsimp only at h
            split at h
            · cases h
            · split at h
              · split at h
                · exact findRtnodeByRi_parent h
                · cases h
              · split at h
                · cases h
                · unfold findVirtual at h
                  split at h
                  · split at h
                    · exact eq_of_looseNode h ▸ findRtnodeByRi_ok _
                    · split at h
                      · exact eq_of_looseNode h ▸ findRtnodeByRi_ok _
                      · exact absurd h (hchild _ _)
                  · exact absurd h (hchild _ _)
      · exact findRtnodeByRi_parent h

/-- `find_rtnode` finds what the address resolves to, or nothing; only an expired resource is removed. -/
theorem findRtnode_cases (now addr : CStr) :
    (s.findRtnode now addr = (s, .null)) ∨
    (∃ n, (s.resolve addr).deref s = some n ∧ (isBase addr = true ∨ isExpired now n = false) ∧
      s.findRtnode now addr = (s, s.resolve addr)) ∨
    (∃ n, (s.resolve addr).deref s = some n ∧ isBase addr = false ∧ isExpired now n = true ∧
      s.findRtnode now addr = (s.expire (s.resolve addr) n, .null)) := by
  unfold findRtnode
  dsimp only
  split
  · exact .inl rfl
  · rename_i n hn
    by_cases hb : isBase addr = true
    · exact .inr (.inl ⟨n, hn, .inl hb, by simp [hb]⟩)
    · by_cases he : isExpired now n = true
      · exact .inr (.inr ⟨n, hn, by simpa using hb, he, by simp [hb, he]⟩)
      · exact .inr (.inl ⟨n, hn, .inr (by simpa using he), by simp [he]⟩)

/-- The resource an address names, expired or not. -/
def named (s : Server) (addr : CStr) : Option RTNode := (s.resolve addr).deref s

/-- The resource an address names is not expired. -/
def Settled (now : CStr) (s : Server) (addr : CStr) : Prop :=
  ∀ n ∈ s.named addr, isBase addr = true ∨ isExpired now n = false

instance (now : CStr) (s : Server) (addr : CStr) : Decidable (s.Settled now addr) :=
  inferInstanceAs (Decidable (∀ n ∈ s.named addr, _))

/-- A lookup of what is not expired leaves the CSE as it is. -/
theorem findRtnode_settled {now addr : CStr} (h : s.Settled now addr) :
    s.findRtnode now addr = (s, .null) ∨
      ∃ n, s.named addr = some n ∧ s.findRtnode now addr = (s, s.resolve addr) := by
  rcases findRtnode_cases (s := s) now addr with hf | ⟨n, hn, -, hf⟩ | ⟨n, hn, hb, hx, -⟩
  · exact .inl hf
  · exact .inr ⟨n, hn, hf⟩
  · rcases h n hn with h | h
    · rw [hb] at h; cases h
    · rw [hx] at h; cases h

theorem findRtnode_ok (s : Server) (now addr : CStr) : (s.findRtnode now addr).2.Ok (s.findRtnode now addr).1.db := by
  rcases findRtnode_cases (s := s) now addr with h | ⟨_, -, -, h⟩ | ⟨_, -, -, -, h⟩
  · rw [h]
    trivial
  · rw [h]
    exact resolve_ok addr
  · rw [h]
    trivial

theorem findNode_ok (now addr : CStr) : (s.findNode now addr).Ok s.db := by
  unfold findNode
  rcases findRtnode_cases (s := s) now addr with h | ⟨n, -, -, h⟩ | ⟨n, -, -, -, h⟩
  · rw [h]; trivial
  · rw [h]; exact resolve_ok addr
  · rw [h]; trivial

end Server

/-! ## Writing back -/

/-- The object of a node agrees with the row of an instance that has its identifier. -/
def Caches (o : Obj) (k : Key) : Prop :=
  k.pi = o.str .pi ∧ k.cs = o.get .cs ∧ (o.str .uri).getD k.uri = k.uri

namespace Server

variable {s : Server}

end Server

end TinyIoT
