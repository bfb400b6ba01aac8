/-
The content size of a flexContainer and what its instances show, through runs of creations and updates. An update computes
the size from a copy of the custom attributes that it merges in one way, and the object itself is merged in another: first
by the update that all types share, where null deletes, and then once more attribute by attribute, where it does not.
-/
import TinyIoT.FlexContainer.Run

namespace TinyIoT

/-! ## Runs -/

/-- The size and the custom attributes of the flexContainer an instance names as its parent. -/
def Server.contentOf (s : Server) (x : RTNode) : Int × Obj :=
  match s.tree.nodes.find? fun p => p.ty = .fcnt && p.ri = x.obj.str .pi with
  | some p => ((p.obj.num .cs).getD 0, customAttributes p.obj)
  | none => (0, [])

/-- An update that sets `fcied` to false takes its instance before the body is merged, the other requests take theirs
when they are carried out. -/
def FcntRequest.early : FcntRequest → Bool
  | .create _ _ => false
  | .update _ req => (req.pc.get .fcied).any Json.isFalse

/-- The answer to a successful request. -/
def FcntRequest.success : FcntRequest → Rsc
  | .create _ _ => .created
  | .update _ _ => .updated

/-- A server, with the content that the flexContainer of each instance had when the instance was made. -/
structure ContentRun where
  server : Server
  content : Nat → Int × Obj

/-- The run after a request: instances with new addresses have been made by it. -/
def ContentRun.after (c : ContentRun) (r : FcntRequest) (s : Server) : ContentRun where
  server := s
  content i := if i < c.server.nextId then c.content i
    else ((s.node? i).map fun x => (if r.early then c.server else s).contentOf x).getD (0, [])

/-- A successful request of a run. -/
def ContentStep (print : Json → CStr) (c c' : ContentRun) : Prop :=
  ∃ (e : FcntEnv) (r : FcntRequest) (x : Server × Resp), e.print = print ∧ c.server.serveFcnt e r = some x ∧
    x.2.rsc = r.success ∧ c' = c.after r x.1

/-- A run starts where there are no flexContainers and no instances yet. -/
def ContentRun.Fresh (c : ContentRun) : Prop :=
  c.server.NodupIds ∧ (∀ n ∈ c.server.tree.nodes, n.id < c.server.nextId) ∧
    ∀ n ∈ c.server.tree.nodes, n.ty ≠ .fcnt ∧ n.ty ≠ .fcin

instance (c : ContentRun) : Decidable c.Fresh :=
  inferInstanceAs (Decidable (c.server.NodupIds ∧ (∀ n ∈ c.server.tree.nodes, _) ∧ ∀ n ∈ c.server.tree.nodes, _))

/-- Every flexContainer has the size of its custom attributes, in its object and in its row, and every instance shows what
its flexContainer had. -/
structure ContentRun.ShowsContent (print : Json → CStr) (c : ContentRun) : Prop where
  size : ∀ n ∈ c.server.tree.nodes, n.ty = .fcnt → ∃ ri, n.ri = some ri ∧
    n.obj.get .cs = some (.int (contentSize print (customAttributes n.obj))) ∧
    ∀ r ∈ c.server.db, r.ri = some ri → r.obj.get .cs = column (.int (contentSize print (customAttributes n.obj)))
  shown : ∀ n ∈ c.server.tree.nodes, n.ty = .fcin →
    n.obj.get .cs = some (.int (c.content n.id).1) ∧ customAttributes n.obj = (c.content n.id).2

/-- No name is given twice. -/
def DistinctNames (o : Obj) : Prop := (o.map Prod.fst).Nodup

instance (o : Obj) : Decidable (DistinctNames o) := inferInstanceAs (Decidable (o.map Prod.fst).Nodup)

/-- No custom attribute has a name that `create_rtnode` takes out or a value it turns into a flag. -/
def PlainNames (custom : Obj) : Prop :=
  ∀ e ∈ custom, e.1 ≠ .uri ∧ e.1 ≠ .memberOf ∧ (e.1 ∈ [Attr.rr, .mtv, .mdd] → e.2.isBool = true)

instance (custom : Obj) : Decidable (PlainNames custom) := inferInstanceAs (Decidable (∀ e ∈ custom, _))

/-- The two merges of an update agree: it does not give the first custom attributes with a name twice, nor a null where
there are names twice. -/
def MergesAlike (old custom : Obj) : Prop :=
  (old = [] → DistinctNames custom) ∧ (DistinctNames old ∨ ∀ e ∈ custom, e.2.isNull = false)

instance (old custom : Obj) : Decidable (MergesAlike old custom) :=
  decidable_of_iff ((old.isEmpty = true → DistinctNames custom) ∧ (DistinctNames old ∨ ∀ e ∈ custom, e.2.isNull = false))
    (and_congr_left' (imp_congr_left List.isEmpty_iff))

/-- The requests that keep the content in step, by the state they meet. -/
def FcntRequest.Merges (e : FcntEnv) (s : Server) : FcntRequest → Prop
  | .create _ req => Unused s (resourceIdentifier .fcnt e.now s.riCount).1 ∧ PlainNames (customAttributes req.pc)
  | .update _ req => PlainNames (customAttributes req.pc) ∧ ∀ n ∈ s.named req.target, n.ty = .fcnt →
      MergesAlike (customAttributes n.obj) (customAttributes req.pc)

instance (e : FcntEnv) (s : Server) : (r : FcntRequest) → Decidable (r.Merges e s)
  | .create _ _ => inferInstanceAs (Decidable (Unused s _ ∧ PlainNames _))
  | .update _ req => inferInstanceAs (Decidable (PlainNames _ ∧ ∀ n ∈ s.named req.target, _ → _))

/-- A successful request that meets the condition. -/
def MergingStep (print : Json → CStr) (c c' : ContentRun) : Prop :=
  ∃ (e : FcntEnv) (r : FcntRequest) (x : Server × Resp), e.print = print ∧ r.Merges e c.server ∧
    c.server.serveFcnt e r = some x ∧ x.2.rsc = r.success ∧ c' = c.after r x.1

/-! ## Two ways to merge -/

section Merge

variable {o c : Obj} {k : Attr} {v : Json}

theorem applyCustom_cons (o : Obj) (e : Attr × Json) (c : Obj) :
    applyCustom o (e :: c) = applyCustom ((o.del e.1).add e.1 e.2) c :=
  rfl

/-- A name that the loop will take out anyway may hold any value. -/
theorem applyCustom_set (hk : k ∈ c.map Prod.fst) : applyCustom (o.set k v) c = applyCustom o c := by
  induction c generalizing o with
  | nil => cases hk
  | cons e c ih =>
    rw [applyCustom_cons, applyCustom_cons]
    by_cases he : e.1 = k
    · subst he
      exact congrArg (fun m => applyCustom (Obj.add m e.1 e.2) c) (Assoc.del_set_self o e.1 v)
    · have hcomm : ((o.set k v).del e.1).add e.1 e.2 = ((o.del e.1).add e.1 e.2).set k v := by
        show Assoc.del (Assoc.set o k v) e.1 ++ [(e.1, e.2)] = Assoc.set (Assoc.del o e.1 ++ [(e.1, e.2)]) k v
        rw [Assoc.del_set_comm o v he, Assoc.set_append_singleton _ v e.2 he]
      rw [hcomm]
      exact ih ((List.mem_cons.mp hk).resolve_left (Ne.symm he))

/-- A name that the loop will take out anyway may be there or not, where it is there no second time. -/
theorem applyCustom_insert {o₁ o₂ : Obj} (hk : k ∈ c.map Prod.fst) (h₁ : o₁.get k = none) (h₂ : o₂.get k = none) :
    applyCustom (o₁ ++ (k, v) :: o₂) c = applyCustom (o₁ ++ o₂) c := by
  induction c generalizing o₁ o₂ with
  | nil => cases hk
  | cons e c ih =>
    rw [applyCustom_cons, applyCustom_cons]
    by_cases he : e.1 = k
    · subst he
      have hnone : Assoc.get (o₁ ++ o₂) e.1 = none := by
        rw [Assoc.get_append]
        simp only [Obj.get] at h₁ h₂
        rw [h₁, h₂]
        rfl
      have hins : Assoc.del (o₁ ++ (e.1, v) :: o₂) e.1 = o₁ ++ o₂ := by
        rw [Assoc.del_append_of_none h₁]
        simp [Assoc.del]
      show applyCustom (Obj.add (Assoc.del (o₁ ++ (e.1, v) :: o₂) e.1) e.1 e.2) c = _
      rw [hins]
      exact congrArg (fun m => applyCustom (Obj.add m e.1 e.2) c) (Assoc.del_eq_self hnone).symm
    · have hk' : k ∈ c.map Prod.fst := (List.mem_cons.mp hk).resolve_left (Ne.symm he)
      have hadd : ∀ o : Obj, o.get k = none → Obj.get (o ++ [(e.1, e.2)]) k = none := fun o ho =>
        (Assoc.get_add_ne he).trans ho
      have hdel : ∀ o : Obj, o.get k = none → Obj.get (Assoc.del o e.1) k = none := fun o ho =>
        (Assoc.get_del_ne he).trans ho
      cases hg : o₁.get e.1 with
      | some w =>
        have h := @ih (Assoc.del o₁ e.1) (o₂ ++ [(e.1, e.2)]) hk' (hdel o₁ h₁) (hadd o₂ h₂)
        show applyCustom (Assoc.del (o₁ ++ (k, v) :: o₂) e.1 ++ [(e.1, e.2)]) c =
          applyCustom (Assoc.del (o₁ ++ o₂) e.1 ++ [(e.1, e.2)]) c
        rw [Assoc.del_append_of_has hg, Assoc.del_append_of_has hg]
        simpa using h
      | none =>
        have h := @ih o₁ (Assoc.del o₂ e.1 ++ [(e.1, e.2)]) hk' h₁ (hadd _ (hdel o₂ h₂))
        show applyCustom (Assoc.del (o₁ ++ (k, v) :: o₂) e.1 ++ [(e.1, e.2)]) c =
          applyCustom (Assoc.del (o₁ ++ o₂) e.1 ++ [(e.1, e.2)]) c
        have hcons : Assoc.del ((k, v) :: o₂) e.1 = (k, v) :: Assoc.del o₂ e.1 := by
          simp [Assoc.del, Ne.symm he]
        rw [Assoc.del_append_of_none hg, Assoc.del_append_of_none hg, hcons]
        simpa using h

theorem distinctNames_updateMember (h : DistinctNames o) : DistinctNames (o.updateMember k v) := by
  unfold Obj.updateMember DistinctNames at *
  split
  · split
    · exact h.sublist ((Assoc.del_sublist o k).map _)
    · rw [show (o.set k v).map Prod.fst = o.map Prod.fst from Assoc.keys_set o k v]
      exact h
  · rename_i hh
    split
    · exact h
    · have hout : k ∉ o.map Prod.fst := Assoc.get_eq_none_iff.mp (Assoc.has_eq_false.mp (by simpa using hh))
      show ((o ++ [(k, v)]).map Prod.fst).Nodup
      rw [List.map_append, List.nodup_append]
      refine ⟨h, List.nodup_singleton _, ?_⟩
      rintro a ha b hb rfl
      obtain rfl : a = k := List.mem_singleton.mp hb
      exact hout ha

/-- One member of the first merge makes no difference to the second. -/
theorem applyCustom_updateMember (hk : k ∈ c.map Prod.fst) (h : DistinctNames o ∨ v.isNull = false) :
    applyCustom (o.updateMember k v) c = applyCustom o c := by
  unfold Obj.updateMember
  split
  · rename_i hh
    split
    · rename_i hn
      obtain ⟨w, hw⟩ := Assoc.has_iff.mp hh
      obtain ⟨o₁, o₂, ho, -, hdel⟩ := Assoc.split_of_get hw
      have honce : DistinctNames o := h.resolve_right fun hv => by rw [hn] at hv; cases hv
      have hout : k ∉ o₁.map Prod.fst ∧ k ∉ o₂.map Prod.fst := by
        unfold DistinctNames at honce
        rw [ho, List.map_append, List.map_cons, List.nodup_append, List.nodup_cons] at honce
        exact ⟨fun hm => honce.2.2 k hm k List.mem_cons_self rfl, honce.2.1.1⟩
      have h := applyCustom_insert (v := w) hk (Assoc.get_eq_none_iff.mpr hout.1) (Assoc.get_eq_none_iff.mpr hout.2)
      rw [← ho] at h
      show applyCustom (Assoc.del o k) c = _
      rw [hdel]
      exact h.symm
    · exact applyCustom_set hk
  · rename_i hh
    split
    · rfl
    · have hnone : o.get k = none := Assoc.has_eq_false.mp (by simpa using hh)
      have h : applyCustom (o ++ [(k, v)]) c = applyCustom (o ++ []) c := applyCustom_insert hk hnone rfl
      rw [List.append_nil] at h
      exact h

theorem applyCustom_updateResource (h : DistinctNames o ∨ ∀ e ∈ c, e.2.isNull = false) :
    applyCustom (o.updateResource c) c = applyCustom o c := by
  have hpart : ∀ c' : Obj, (∀ e ∈ c', e ∈ c) → ∀ o : Obj, (DistinctNames o ∨ ∀ e ∈ c, e.2.isNull = false) →
      applyCustom (o.updateResource c') c = applyCustom o c := by
    intro c'
    induction c' with
    | nil => exact fun _ _ _ => rfl
    | cons e c' ih =>
      intro hsub o ho
      have he : e ∈ c := hsub e List.mem_cons_self
      show applyCustom ((o.updateMember e.1 e.2).updateResource c') c = _
      rw [ih (fun e he => hsub e (List.mem_cons_of_mem _ he)) _ (ho.imp_left distinctNames_updateMember),
        applyCustom_updateMember (List.mem_map_of_mem he) (ho.imp_right fun h => h e he)]
  exact hpart c (fun _ h => h) o h

/-- Attributes of different names that are not there yet are added as they are. -/
theorem applyCustom_new (h : DistinctNames (o ++ c)) : applyCustom o c = o ++ c := by
  induction c generalizing o with
  | nil => simp [applyCustom]
  | cons e c ih =>
    have hout : Assoc.get o e.1 = none := by
      refine Assoc.get_eq_none_iff.mpr fun hm => ?_
      unfold DistinctNames at h
      rw [List.map_append, List.map_cons, List.nodup_append] at h
      exact h.2.2 e.1 hm e.1 List.mem_cons_self rfl
    rw [applyCustom_cons]
    show applyCustom (Assoc.del o e.1 ++ [(e.1, e.2)]) c = _
    rw [Assoc.del_eq_self hout, ih (by simpa using h)]
    simp

end Merge

/-! ## The invariant -/

/-- A flexContainer that has the size of its custom attributes, in memory and in its rows. -/
structure Weighed (print : Json → CStr) (db : Db) (n : RTNode) (ri : CStr) : Prop where
  named : n.obj.get .ri = some (.str ri)
  /-- Instances have identifiers with another prefix. -/
  mark : ri.head? = some '2'
  size : n.obj.get .cs = some (.int (contentSize print (customAttributes n.obj)))
  rows : ∀ r ∈ db, r.ri = some ri → r.obj.get .cs = column (.int (contentSize print (customAttributes n.obj)))
  plain : PlainNames (customAttributes n.obj)

structure SizedInv (print : Json → CStr) (s : Server) : Prop where
  ids : s.NodupIds
  below : ∀ n ∈ s.tree.nodes, n.id < s.nextId
  sized : ∀ n ∈ s.tree.nodes, n.ty = .fcnt → ∃ ri, Weighed print s.db n ri
  apart : ∀ n ∈ s.tree.nodes, ∀ m ∈ s.tree.nodes, n.ty = .fcnt → m.ty = .fcnt → n.ri = m.ri → n.id = m.id

/-- The rows of flexContainers keep their size. -/
def SizesFrom (db db' : Db) : Prop :=
  ∀ r' ∈ db', ∀ ri, r'.ri = some ri → ri.head? = some '2' → ∃ r ∈ db, r.ri = some ri ∧ r'.obj.get .cs = r.obj.get .cs

/-- Two objects of a flexContainer with the same identifier, size and custom attributes. -/
structure SameContent (o o' : Obj) : Prop where
  ri : o'.get .ri = o.get .ri
  cs : o'.get .cs = o.get .cs
  custom : customAttributes o' = customAttributes o

/-- A step that leaves the content of the flexContainers alone; the instances that are new are as `C` says. -/
structure ContentKept (C : RTNode → Prop) (s s' : Server) : Prop where
  ids : s'.NodupIds
  below : ∀ n ∈ s'.tree.nodes, n.id < s'.nextId
  next : s.nextId ≤ s'.nextId
  nodes : ∀ n ∈ s'.tree.nodes, n.ty = .fcnt → ∃ m ∈ s.tree.nodes, m.ty = .fcnt ∧ m.id = n.id ∧ SameContent m.obj n.obj
  fcins : ∀ n ∈ s'.tree.nodes, n.ty = .fcin → n ∈ s.tree.nodes ∨ C n
  types : ∀ n ∈ s'.tree.nodes, n.id < s.nextId → ∃ m ∈ s.tree.nodes, m.id = n.id ∧ m.ty = n.ty
  rows : SizesFrom s.db s'.db

/-- An instance of a flexContainer, with an address from `i` on, that shows its content. -/
structure InstanceOf (fcnt : RTNode) (i : Nat) (x : RTNode) : Prop where
  new : i ≤ x.id
  pi : ∃ pi, fcnt.ri = some pi ∧ x.obj.get .pi = some (.str pi)
  cs : x.obj.get .cs = some (.int ((fcnt.obj.num .cs).getD 0))
  custom : customAttributes x.obj = customAttributes fcnt.obj

section Rows

variable {db db' db'' : Db}

theorem SizesFrom.refl (db : Db) : SizesFrom db db := fun r hr _ hri _ => ⟨r, hr, hri, rfl⟩

theorem SizesFrom.trans (h : SizesFrom db db') (h' : SizesFrom db' db'') : SizesFrom db db'' := by
  intro r'' hr'' ri hri hm
  obtain ⟨r', hr', hri', hcs'⟩ := h' r'' hr'' ri hri hm
  obtain ⟨r, hr, hri, hcs⟩ := h r' hr' ri hri' hm
  exact ⟨r, hr, hri, hcs'.trans hcs⟩

theorem SizesFrom.of_subset (h : ∀ r ∈ db', r ∈ db) : SizesFrom db db' := fun r hr _ hri _ => ⟨r, h r hr, hri, rfl⟩

theorem sizesFrom_update {o : Obj} {x : CStr} (ho : Addresses o x) (hc : o.get .cs = none) :
    SizesFrom db (db.dbUpdateResource o x) := by
  intro r' hr' ri hri _
  obtain ⟨r, hr, ⟨hrx, rfl⟩ | ⟨-, hsame⟩⟩ := mem_dbUpdateResource.mp hr'
  · obtain rfl : ri = x := by
      rcases ho.ri_written hrx with h | h
      · exact Option.some.inj (hri.symm.trans h)
      · cases hri.symm.trans h
    refine ⟨r, hr, hrx, ?_⟩
    rw [get_written r o (by decide), hc]
    rfl
  · exact ⟨r, hr, hsame ▸ hri, by rw [hsame]⟩

theorem sizesFrom_store {b : Backend} {x : CStr} {o : Obj} : SizesFrom db (db.dbStoreFcntCustomAttributes b x o) := by
  intro r' hr' ri hri _
  obtain ⟨r, hr, rfl⟩ := List.mem_map.mp hr'
  have hsame : ∀ k, k ≠ customColumn → Obj.get (if r.ri = some x ∧ (r.ty = .fcnt ∨ r.ty = .fcin) then
      { r with obj := Assoc.add (Assoc.drop r.obj customColumn) customColumn (.obj (b.document o)) } else r).obj k =
        r.obj.get k := by
    intro k hk
    split
    · show Assoc.get _ _ = Assoc.get _ _
      rw [Assoc.get_add_ne (Ne.symm hk), Assoc.get_drop, if_neg (Ne.symm hk)]
    · rfl
  refine ⟨r, hr, ?_, hsame .cs (by decide)⟩
  rw [← hri]
  exact (Obj.str_congr (hsame .ri (by decide))).symm

theorem sizesFrom_snoc {q : Row} (hq : ∀ ri, q.ri = some ri → ri.head? ≠ some '2') : SizesFrom db (db ++ [q]) := by
  intro r hr ri hri hm
  rcases List.mem_append.mp hr with hr | hr
  · exact ⟨r, hr, hri, rfl⟩
  · rw [List.mem_singleton.mp hr] at hri
    exact absurd hm (hq ri hri)

theorem sizesFrom_instance {ct uri : CStr} {n : Nat} (h : InstanceRow db (resourceIdentifier .fcin ct n).1 uri db') :
    SizesFrom db db' := by
  obtain ⟨q, hq, -, -, hdb⟩ := h
  have hsnoc : SizesFrom db (db ++ [q]) := sizesFrom_snoc fun ri hri hm =>
    AttrInv.mark_fcin ct n hm (Option.some.inj (hq.symm.trans hri))
  rcases hdb with rfl | ⟨b, custom, rfl⟩
  · exact hsnoc
  · exact hsnoc.trans sizesFrom_store

end Rows

section Kept

variable {print : Json → CStr} {C C' : RTNode → Prop} {s s₁ s' : Server}

theorem SameContent.refl (o : Obj) : SameContent o o := ⟨rfl, rfl, rfl⟩

theorem SameContent.trans {o o' o'' : Obj} (h : SameContent o o') (h' : SameContent o' o'') : SameContent o o'' :=
  ⟨h'.ri.trans h.ri, h'.cs.trans h.cs, h'.custom.trans h.custom⟩

/-- Other standard attributes make no difference. -/
theorem SameContent.of_touches {l : List Attr} {o o' : Obj} (h : Assoc.Touches l o o') (hri : Attr.ri ∉ l)
    (hcs : Attr.cs ∉ l) (hl : (l.all isStandardFcntAttribute) = true) : SameContent o o' :=
  ⟨h.get hri, h.get hcs, customAttributes_of_touches h hl⟩

theorem ContentKept.trans (h : ContentKept C s s₁) (h' : ContentKept C s₁ s') : ContentKept C s s' where
  ids := h'.ids
  below := h'.below
  next := h.next.trans h'.next
  nodes n hn hty := by
    obtain ⟨m, hm, hmty, hmid, hsame⟩ := h'.nodes n hn hty
    obtain ⟨l, hl, hlty, hlid, hsame'⟩ := h.nodes m hm hmty
    exact ⟨l, hl, hlty, hlid.trans hmid, hsame'.trans hsame⟩
  fcins n hn hty := by
    rcases h'.fcins n hn hty with hn | hc
    · exact h.fcins n hn hty
    · exact .inr hc
  types n hn hid := by
    obtain ⟨m, hm, hmid, hmty⟩ := h'.types n hn (by have := h.next; omega)
    obtain ⟨l, hl, hlid, hlty⟩ := h.types m hm (hmid ▸ hid)
    exact ⟨l, hl, hlid.trans hmid, hlty.trans hmty⟩
  rows := h.rows.trans h'.rows

theorem ContentKept.mono (h : ContentKept C s s') (hC : ∀ x, C x → C' x) : ContentKept C' s s' :=
  ⟨h.ids, h.below, h.next, h.nodes, fun n hn hty => (h.fcins n hn hty).imp_right (hC n), h.types, h.rows⟩

theorem SizedInv.kept (h : SizedInv print s) (hk : ContentKept C s s') : SizedInv print s' where
  ids := hk.ids
  below := hk.below
  sized n hn hty := by
    obtain ⟨m, hm, hmty, -, hsame⟩ := hk.nodes n hn hty
    obtain ⟨ri, hmeas⟩ := h.sized m hm hmty
    refine ⟨ri, hsame.ri.trans hmeas.named, hmeas.mark, ?_, fun r hr hri => ?_, hsame.custom ▸ hmeas.plain⟩
    · rw [hsame.cs, hsame.custom]
      exact hmeas.size
    · obtain ⟨r₀, hr₀, hri₀, hcs⟩ := hk.rows r hr ri hri hmeas.mark
      rw [hcs, hsame.custom]
      exact hmeas.rows r₀ hr₀ hri₀
  apart n hn m hm hnty hmty hri := by
    obtain ⟨n₀, hn₀, hnty₀, hnid, hnsame⟩ := hk.nodes n hn hnty
    obtain ⟨m₀, hm₀, hmty₀, hmid, hmsame⟩ := hk.nodes m hm hmty
    rw [← hnid, ← hmid]
    exact h.apart n₀ hn₀ m₀ hm₀ hnty₀ hmty₀ ((Obj.str_congr hnsame.ri).symm.trans (hri.trans (Obj.str_congr hmsame.ri)))

namespace SizedInv

theorem keptRefl (h : SizedInv print s) : ContentKept C s s :=
  ⟨h.ids, h.below, le_refl _, fun n hn hty => ⟨n, hn, hty, rfl, .refl _⟩, fun _ hn _ => .inl hn,
    fun n hn _ => ⟨n, hn, rfl, rfl⟩, .refl _⟩

theorem keptDb (h : SizedInv print s) {db : Db} (hdb : SizesFrom s.db db) : ContentKept C s { s with db := db } :=
  ⟨h.ids, h.below, le_refl _, fun n hn hty => ⟨n, hn, hty, rfl, .refl _⟩, fun _ hn _ => .inl hn,
    fun n hn _ => ⟨n, hn, rfl, rfl⟩, hdb⟩

/-- Nodes go. -/
theorem keptShrink (h : SizedInv print s) (ht : s'.tree.nodes.Sublist s.tree.nodes) (hn : s'.nextId = s.nextId)
    (hdb : ∀ r ∈ s'.db, r ∈ s.db) : ContentKept C s s' :=
  ⟨h.ids.sublist (ht.map _), fun n hm => hn ▸ h.below n (ht.subset hm), hn.ge,
    fun n hm hty => ⟨n, ht.subset hm, hty, rfl, .refl _⟩, fun _ hm _ => .inl (ht.subset hm),
    fun n hn _ => ⟨n, ht.subset hn, rfl, rfl⟩, .of_subset hdb⟩

/-- The object of a flexContainer is assigned. -/
theorem keptSetObj (h : SizedInv print s) {i : Nat} {o : Obj}
    (ho : ∀ n ∈ s.tree.nodes, n.id = i → n.ty = .fcnt ∧ SameContent n.obj o) : ContentKept C s (s.setObj i o) := by
  have hnodes : ∀ n ∈ (s.setObj i o).tree.nodes, ∃ m ∈ s.tree.nodes, n = if m.id = i then { m with obj := o } else m := by
    intro n hn
    rw [Server.setObj, Server.nodes_modifyNode] at hn
    obtain ⟨m, hm, rfl⟩ := List.mem_map.mp hn
    exact ⟨m, hm, rfl⟩
  refine ⟨h.ids.modify (f := fun n => { n with obj := o }) (fun _ _ _ => rfl) rfl, fun n hn => ?_, le_refl _,
    fun n hn hty => ?_, fun n hn hty => ?_, fun n hn _ => ?_, .refl _⟩
  · obtain ⟨m, hm, rfl⟩ := hnodes n hn
    rw [show (if m.id = i then { m with obj := o } else m).id = m.id by split <;> rfl]
    exact h.below m hm
  · obtain ⟨m, hm, rfl⟩ := hnodes n hn
    by_cases hid : m.id = i
    · rw [if_pos hid]
      exact ⟨m, hm, (ho m hm hid).1, rfl, (ho m hm hid).2⟩
    · rw [if_neg hid] at hty ⊢
      exact ⟨m, hm, hty, rfl, .refl _⟩
  · obtain ⟨m, hm, rfl⟩ := hnodes n hn
    by_cases hid : m.id = i
    · rw [if_pos hid] at hty
      exact absurd ((ho m hm hid).1.symm.trans hty) (by decide)
    · rw [if_neg hid]
      exact .inl hm
  · obtain ⟨m, hm, rfl⟩ := hnodes n hn
    exact ⟨m, hm, by split <;> exact ⟨rfl, rfl⟩⟩

/-- Instances are removed. -/
theorem keptRemoves (h : SizedInv print s) {i : Nat} (hr : s.Removes i s') : ContentKept C s s' := by
  obtain ⟨l, -, rfl⟩ := hr
  have hdb : ∀ (s₁ : Server) (l : List RTNode), (l.foldl Server.removeFcin s₁).tree.nodes.Sublist s₁.tree.nodes ∧
      (l.foldl Server.removeFcin s₁).nextId = s₁.nextId ∧ ∀ r ∈ (l.foldl Server.removeFcin s₁).db, r ∈ s₁.db := by
    intro s₁ l
    induction l generalizing s₁ with
    | nil => exact ⟨List.Sublist.refl _, rfl, fun _ hr => hr⟩
    | cons c l ih =>
      obtain ⟨ht, hn, hl⟩ := ih (s₁.removeFcin c)
      exact ⟨ht.trans (Forest.nodes_remove_sublist _ _), hn, fun r hr => Db.mem_dbDelete (hl r hr)⟩
  obtain ⟨ht, hn, hleft⟩ := hdb s l
  exact h.keptShrink ht hn hleft

/-- `add_flexcontainer_instance`. -/
theorem keptInstance (h : SizedInv print s) {e : FcntEnv} {req : Req} {n : RTNode} {isCreate b : Bool}
    (hplain : PlainNames (customAttributes n.obj)) (he : s.addFlexcontainerInstance e req n isCreate = some (s', b)) :
    ContentKept (InstanceOf n s.nextId) s s' := by
  rcases addFlexcontainerInstance_object he with ⟨-, ht, hdb, hn, -⟩ | ⟨-, st, o, x, -, hobj, hx, ht, hn, -, hrow⟩
  · exact h.keptShrink (by rw [ht]) hn fun r hr => hdb ▸ hr
  · obtain ⟨hid, hty, -⟩ := createRtnode_some hx
    have hget : ∀ k, isStandardFcntAttribute k = false → o.get k = (customAttributes n.obj).get k := by
      intro k hk
      rw [← hobj.custom]
      unfold customAttributes
      rw [Obj.get, Obj.get, Assoc.get_filterKeys, if_pos (by simp [hk])]
    have hout : ∀ k, (∀ e ∈ customAttributes n.obj, e.1 ≠ k) → (customAttributes n.obj).get k = none := by
      intro k hk
      refine Assoc.get_eq_none_iff.mpr fun hm => ?_
      obtain ⟨e, he, hek⟩ := List.mem_map.mp hm
      exact hk e he hek
    have hxo : x.obj = o := by
      refine createRtnode_obj hx ((hget .uri (by decide)).trans (hout .uri fun e he => (hplain e he).1))
        ((hget .memberOf (by decide)).trans (hout .memberOf fun e he => (hplain e he).2.1)) fun k hk => ?_
      rw [hget k (by revert hk; revert k; decide)]
      cases hg : (customAttributes n.obj).get k with
      | none => rfl
      | some v => exact (hplain (k, v) (Assoc.mem_of_get hg)).2.2 hk
    obtain ⟨hids, hnodes⟩ := Server.mem_nodes_graft h.ids (x := { x with uri := n.uri ++ '/' :: x.rn })
      (fun m hm => by have := h.below m hm; have : x.id = s.nextId := hid; show m.id ≠ x.id; omega) ht
    have hnew : InstanceOf n s.nextId { x with uri := n.uri ++ '/' :: x.rn } :=
      ⟨hid.ge, by show ∃ pi, n.ri = some pi ∧ x.obj.get .pi = some (.str pi); rw [hxo]; exact hobj.pi,
        by show x.obj.get .cs = _; rw [hxo]; exact hobj.cs, by show customAttributes x.obj = _; rw [hxo]; exact hobj.custom⟩
    refine ⟨hids, fun m hm => ?_, by omega, fun m hm hmty => ?_, fun m hm hmty => ?_, fun m hm hmid => ?_,
      sizesFrom_instance hrow⟩
    · rcases hnodes m hm with rfl | hm
      · show x.id < _
        omega
      · have := h.below m hm
        omega
    · rcases hnodes m hm with rfl | hm
      · exact absurd (hty.symm.trans hmty) (by decide)
      · exact ⟨m, hm, hmty, rfl, .refl _⟩
    · rcases hnodes m hm with rfl | hm
      · exact .inr hnew
      · exact .inl hm
    · rcases hnodes m hm with rfl | hm
      · have : x.id < s.nextId := hmid
        omega
      · exact ⟨m, hm, rfl, rfl⟩

end SizedInv

end Kept

/-! ## An update -/

section Update

variable {print : Json → CStr} {s s' : Server} {e : FcntEnv} {req : Req} {n : RTNode} {ri : CStr} {o obj body custom : Obj}

/-- A name of the loop over the custom attributes is not one of the standard attributes. -/
theorem get_applyCustom_standard (hstd : ∀ e ∈ custom, isStandardFcntAttribute e.1 = false) {k : Attr}
    (hk : isStandardFcntAttribute k = true) (o : Obj) : (applyCustom o custom).get k = o.get k := by
  refine (touches_applyCustom o custom).get fun hm => ?_
  obtain ⟨e, he, rfl⟩ := List.mem_map.mp hm
  rw [hstd e he] at hk
  cases hk

theorem plainNames_applyCustom {old : Obj} (h : PlainNames old) (hc : PlainNames custom) :
    PlainNames (applyCustom old custom) := by
  have hpart : ∀ c o : Obj, PlainNames o → PlainNames c → PlainNames (applyCustom o c) := by
    intro c
    induction c with
    | nil => exact fun _ h _ => h
    | cons e c ih =>
      intro o ho hc
      rw [applyCustom_cons]
      refine ih _ (fun e' he' => ?_) fun e' he' => hc e' (List.mem_cons_of_mem _ he')
      rcases Assoc.mem_add he' with hm | rfl
      · exact ho e' (Assoc.mem_of_mem_del hm)
      · exact hc e List.mem_cons_self
  exact hpart custom old h hc

/-- The size that an update computes is that of the custom attributes it leaves. -/
theorem size_of_merged {old : Obj} (h : MergesAlike old custom) :
    (if custom.isEmpty then contentSize print old
      else contentSize print (if old.isEmpty then custom else applyCustom old custom)) =
      contentSize print (applyCustom (old.updateResource custom) custom) := by
  cases hc : custom with
  | nil => rfl
  | cons e c =>
    rw [← hc, if_neg (by simp [hc]), applyCustom_updateResource h.2]
    by_cases ho : old = []
    · subst ho
      show contentSize print custom = _
      rw [applyCustom_new (o := []) (h.1 rfl)]
      rfl
    · rw [if_neg (by simpa using ho)]

/-- A flexContainer gets other content, in its object and in its rows. -/
theorem SizedInv.weighed (h : SizedInv print s) {i : Nat}
    (hsep : ∀ m ∈ s.tree.nodes, m.id = i ↔ m.ty = .fcnt ∧ m.ri = some ri) (hri : o.get .ri = some (.str ri))
    (hcs : o.get .cs = some (.int (contentSize print (customAttributes o)))) (hplain : PlainNames (customAttributes o))
    (ht : s'.tree = (s.setObj i o).tree) (hn : s'.nextId = s.nextId)
    (hown : ∀ r ∈ s'.db, r.ri = some ri → r.obj.get .cs = column (.int (contentSize print (customAttributes o))))
    (hdb : ∀ r' ∈ s'.db, ∀ x, r'.ri = some x → x.head? = some '2' → x ≠ ri →
      ∃ r ∈ s.db, r.ri = some x ∧ r'.obj.get .cs = r.obj.get .cs) :
    SizedInv print s' ∧ (∀ x ∈ s'.tree.nodes, x.ty = .fcin → x ∈ s.tree.nodes) ∧
      ∀ m ∈ s.tree.nodes, m.id = i → { m with obj := o } ∈ s'.tree.nodes := by
  have hnodes : ∀ n ∈ s'.tree.nodes, ∃ m ∈ s.tree.nodes, n = if m.id = i then { m with obj := o } else m := by
    intro n hn
    rw [ht, Server.setObj, Server.nodes_modifyNode] at hn
    obtain ⟨m, hm, rfl⟩ := List.mem_map.mp hn
    exact ⟨m, hm, rfl⟩
  have hkind : ∀ m : RTNode, (if m.id = i then { m with obj := o } else m).id = m.id ∧
      (if m.id = i then { m with obj := o } else m).ty = m.ty := fun m => by split <;> exact ⟨rfl, rfl⟩
  have hris : ∀ m ∈ s.tree.nodes, (if m.id = i then { m with obj := o } else m).ri = m.ri := by
    intro m hm
    split
    · rename_i hid
      exact (Obj.str_of_get hri).trans ((hsep m hm).mp hid).2.symm
    · rfl
  refine ⟨⟨?_, fun n hn' => ?_, fun n hn' hty => ?_, fun n hn' p hp hnty hpty hnp => ?_⟩, fun x hx hty => ?_,
    fun m hm hid => ?_⟩
  · exact h.ids.modify (f := fun n => { n with obj := o }) (fun _ _ _ => rfl) ht
  · obtain ⟨m, hm, rfl⟩ := hnodes n hn'
    rw [(hkind m).1, hn]
    exact h.below m hm
  · obtain ⟨m, hm, rfl⟩ := hnodes n hn'
    rw [(hkind m).2] at hty
    obtain ⟨x, hw⟩ := h.sized m hm hty
    have hx : m.ri = some x := Obj.str_of_get hw.named
    by_cases hid : m.id = i
    · obtain rfl : x = ri := Option.some.inj (hx.symm.trans ((hsep m hm).mp hid).2)
      rw [if_pos hid]
      exact ⟨x, hri, hw.mark, hcs, hown, hplain⟩
    · have hne : x ≠ ri := fun he => hid ((hsep m hm).mpr ⟨hty, he ▸ hx⟩)
      rw [if_neg hid]
      refine ⟨x, hw.named, hw.mark, hw.size, fun r' hr' hri' => ?_, hw.plain⟩
      obtain ⟨r, hr, hrri, hrcs⟩ := hdb r' hr' x hri' hw.mark hne
      exact hrcs.trans (hw.rows r hr hrri)
  · obtain ⟨m, hm, rfl⟩ := hnodes n hn'
    obtain ⟨q, hq, rfl⟩ := hnodes p hp
    rw [(hkind m).2] at hnty
    rw [(hkind q).2] at hpty
    rw [hris m hm, hris q hq] at hnp
    rw [(hkind m).1, (hkind q).1]
    exact h.apart m hm q hq hnty hpty hnp
  · obtain ⟨m, hm, rfl⟩ := hnodes x hx
    by_cases hid : m.id = i
    · rw [(hkind m).2] at hty
      exact absurd (((hsep m hm).mp hid).1.symm.trans hty) (by decide)
    · rw [if_neg hid]
      exact hm
  · rw [ht, Server.setObj, Server.nodes_modifyNode]
    exact List.mem_map.mpr ⟨m, hm, if_pos hid⟩

/-- An instance shows what the flexContainer it names as its parent has. -/
def ShowsIn (t : Server) (x : RTNode) : Prop :=
  x.obj.get .cs = some (.int (t.contentOf x).1) ∧ customAttributes x.obj = (t.contentOf x).2

theorem InstanceOf.showsIn (h : SizedInv print s) {m x : RTNode} {i : Nat} (hx : InstanceOf n i x) (hm : m ∈ s.tree.nodes)
    (hty : m.ty = .fcnt) (hsame : SameContent n.obj m.obj) : ShowsIn s x := by
  obtain ⟨pi, hpi, hxpi⟩ := hx.pi
  have hmri : m.ri = some pi := (Obj.str_congr hsame.ri).trans hpi
  have hfound : s.contentOf x = ((m.obj.num .cs).getD 0, customAttributes m.obj) := by
    unfold Server.contentOf
    cases hf : s.tree.nodes.find? fun p => p.ty = .fcnt && p.ri = x.obj.str .pi with
    | none =>
      have hnot := List.find?_eq_none.mp hf m hm
      rw [Obj.str_of_get hxpi] at hnot
      exact absurd (by simp [hty, hmri]) hnot
    | some p =>
      have hp := List.find?_some hf
      simp only [Bool.and_eq_true, decide_eq_true_eq] at hp
      have hpm : p.id = m.id := h.apart p (List.mem_of_find?_eq_some hf) m hm hp.1 hty
        (hp.2.trans ((Obj.str_of_get hxpi).trans hmri.symm))
      rw [h.ids.eq (List.mem_of_find?_eq_some hf) hm hpm]
  have hcs : (m.obj.num .cs) = n.obj.num .cs := by
    unfold Obj.num
    rw [hsame.cs]
  refine ⟨?_, ?_⟩
  · rw [hfound, hx.cs, hcs]
  · rw [hfound, hx.custom, hsame.custom]

/-- The nodes there were stay when an instance is added. -/
theorem mem_addInstance (hs : s.NodupIds) (hn : n ∈ s.tree.nodes) {fcnt : RTNode} (hid : fcnt.id = n.id) {isCreate b : Bool}
    (he : s.addFlexcontainerInstance e req fcnt isCreate = some (s', b)) : ∀ m ∈ s.tree.nodes, m ∈ s'.tree.nodes := by
  rcases addFlexcontainerInstance_object he with ⟨-, ht, -⟩ | ⟨-, st, o, x, -, -, -, ht, -⟩
  · rw [ht]
    exact fun _ hm => hm
  · intro m hm
    rw [ht]
    exact (Server.nodes_graft hs hn hid.symm).symm.subset (List.mem_cons_of_mem _ hm)

/-- The end of `update_fcnt`. -/
theorem SizedInv.writeFcnt (h : SizedInv print s) {needs : Bool} {r : Resp}
    (hsep : ∀ m ∈ s.tree.nodes, m.id = n.id ↔ m.ty = .fcnt ∧ m.ri = some ri) (hri : obj.get .ri = some (.str ri))
    (hmark : ri.head? = some '2') (hbody : body.get .ri = none) (hcustom : customAttributes body = custom)
    (hcs : Assoc.entries body .cs =
      [(.cs, .int (contentSize print (applyCustom ((customAttributes obj).updateResource custom) custom)))])
    (hplain : PlainNames (customAttributes obj)) (hpc : PlainNames custom)
    (he : s.writeFcnt e req n obj body custom needs = some (s', r)) :
    SizedInv print s' ∧ ∀ x ∈ s'.tree.nodes, x.ty = .fcin →
      x ∈ s.tree.nodes ∨ (needs = true ∧ s.nextId ≤ x.id ∧ ShowsIn s' x) := by
  set o := applyCustom (obj.updateResource body) custom with ho
  have hstd : ∀ e ∈ custom, isStandardFcntAttribute e.1 = false := fun e he => by
    rw [← hcustom] at he
    exact (mem_customAttributes.mp he).2
  have hcust : customAttributes o = applyCustom ((customAttributes obj).updateResource custom) custom := by
    rw [ho, customAttributes_applyCustom _ hstd, customAttributes_updateResource, hcustom]
  rw [← hcust] at hcs
  have hup : (obj.updateResource body).get .ri = some (.str ri) := (Obj.get_updateResource_of_not_has hbody).trans hri
  have hori : o.get .ri = some (.str ri) := (get_applyCustom_standard hstd (by decide) _).trans hup
  have hocs : o.get .cs = some (.int (contentSize print (customAttributes o))) :=
    (get_applyCustom_standard hstd (by decide) _).trans (Obj.get_updateResource_of_last (l := []) rfl hcs)
  have hoplain : PlainNames (customAttributes o) := by
    rw [hcust]
    refine plainNames_applyCustom (fun e he => ?_) hpc
    exact (Obj.mem_updateResource he).elim (hplain e) (hpc e)
  unfold Server.writeFcnt at he
  simp only [Obj.str_of_get hup, Option.bind_eq_bind, Option.bind_some] at he
  rw [← ho] at he
  have haddr : Addresses (inColumns .fcnt body) ri := addresses_inColumns (.inl hbody)
  have hrow : (inColumns .fcnt body).get .cs = some (.int (contentSize print (customAttributes o))) := by
    unfold inColumns
    rw [Obj.get, Assoc.get_filterKeys, if_pos (by decide), Assoc.get_eq_head, hcs]
    rfl
  have hdb : ∀ c : Bool, (if c then { s with db := s.db.dbUpdateResource (inColumns .fcnt body) ri } else { s with
      db := Db.dbStoreFcntCustomAttributes e.backend (s.db.dbUpdateResource (inColumns .fcnt body) ri) ri custom }) =
      { s with db := if c then s.db.dbUpdateResource (inColumns .fcnt body) ri
        else Db.dbStoreFcntCustomAttributes e.backend (s.db.dbUpdateResource (inColumns .fcnt body) ri) ri custom } := by
    intro c
    cases c <;> rfl
  rw [hdb] at he
  -- the server before the instance is added
  set s₁ := Server.setObj { s with db := if custom.isEmpty then s.db.dbUpdateResource (inColumns .fcnt body) ri
    else Db.dbStoreFcntCustomAttributes e.backend (s.db.dbUpdateResource (inColumns .fcnt body) ri) ri custom } n.id o with hs₁
  have hwritten : SizesFrom (s.db.dbUpdateResource (inColumns .fcnt body) ri) s₁.db := by
    rw [hs₁, Server.setObj_db]
    dsimp only
    split
    · exact .refl _
    · exact sizesFrom_store
  obtain ⟨h₁, hfcins, hmem⟩ : SizedInv print s₁ ∧ (∀ x ∈ s₁.tree.nodes, x.ty = .fcin → x ∈ s.tree.nodes) ∧
      ∀ m ∈ s.tree.nodes, m.id = n.id → { m with obj := o } ∈ s₁.tree.nodes := by
    refine h.weighed hsep hori hocs hoplain rfl rfl (fun r' hr' hri' => ?_) fun r' hr' x hx hm hne => ?_
    · obtain ⟨r, hr, hrri, hrcs⟩ := hwritten r' hr' ri hri' hmark
      obtain ⟨r₀, -, ⟨-, rfl⟩ | ⟨hne, rfl⟩⟩ := mem_dbUpdateResource.mp hr
      · rw [hrcs, get_written r₀ _ (by decide), hrow]
        rfl
      · exact absurd hrri hne
    · obtain ⟨r, hr, hrri, hrcs⟩ := hwritten r' hr' x hx hm
      obtain ⟨r₀, hr₀, ⟨hr₀ri, rfl⟩ | ⟨-, rfl⟩⟩ := mem_dbUpdateResource.mp hr
      · rcases haddr.ri_written hr₀ri with he | he
        · exact absurd (Option.some.inj (hrri.symm.trans he)) hne
        · cases hrri.symm.trans he
      · exact ⟨r, hr₀, hrri, hrcs⟩
  have hnext : s₁.nextId = s.nextId := rfl
  have hnodes : ∀ x ∈ s₁.tree.nodes, x.id = n.id → ∃ m ∈ s.tree.nodes, m.id = n.id ∧ x = { m with obj := o } := by
    intro x hx hid
    rw [hs₁, Server.setObj, Server.nodes_modifyNode] at hx
    obtain ⟨m, hm, rfl⟩ := List.mem_map.mp hx
    by_cases hmid : m.id = n.id
    · exact ⟨m, hm, hmid, if_pos hmid⟩
    · rw [if_neg hmid] at hid
      exact absurd hid hmid
  clear_value s₁
  split at he
  · rename_i hneeds
    obtain ⟨⟨s₂, added⟩, hadd, he⟩ := Option.bind_eq_some_iff.mp he
    have hkept := h₁.keptInstance (n := { n with obj := o }) hoplain hadd
    have h₂ := h₁.kept hkept
    -- the flexContainer is where it was, or there is nothing to add an instance to
    have hstay : (∃ m ∈ s₂.tree.nodes, m.id = n.id ∧ m.ty = .fcnt ∧ m.obj = o) ∨ s₂.tree = s₁.tree := by
      by_cases hex : ∃ m ∈ s.tree.nodes, m.id = n.id
      · obtain ⟨m, hm, hid⟩ := hex
        have hown := hmem m hm hid
        have hsame : ({ n with obj := o } : RTNode).id = m.id := hid.symm
        exact .inl ⟨_, mem_addInstance h₁.ids hown hsame hadd _ hown, hid, ((hsep m hm).mp hid).1, rfl⟩
      · refine .inr ?_
        rcases addFlexcontainerInstance_object hadd with ⟨-, ht, -⟩ | ⟨-, st, o', x, -, -, -, ht, -⟩
        · exact ht
        · rw [ht]
          refine Forest.graft_eq_self fun a ha => ?_
          rw [Bool.eq_false_iff]
          intro hid
          obtain ⟨m, hm, hmid, -⟩ := hnodes a ha (hasId_iff.mp hid)
          exact hex ⟨m, hm, hmid⟩
    dsimp only at he
    split at he
    · cases he
      refine ⟨h₂, fun x hx hxty => ?_⟩
      rcases hstay with ⟨m, hm, -, hmty, hmo⟩ | ht
      · rcases hkept.fcins x hx hxty with hx | hx
        · exact .inl (hfcins x hx hxty)
        · exact .inr ⟨hneeds.2, hnext ▸ hx.new, hx.showsIn h₂ hm hmty (hmo ▸ .refl _)⟩
      · rw [ht] at hx
        exact .inl (hfcins x hx hxty)
    · rename_i hnot
      cases he
      have ht₂ : s₂.tree = s₁.tree := by
        rcases addFlexcontainerInstance_object hadd with ⟨-, ht, -⟩ | ⟨hb, -⟩
        · exact ht
        · exact absurd hb hnot
      have hset : ∀ (o : Obj) (v : Option Int) (k : Attr), k ∈ [Attr.cni, .cbs] →
          Assoc.Touches [.cni, .cbs] o ((v.map fun n => o.set k (.int n)).getD o) := by
        intro o v k hk
        cases v with
        | none => exact .refl _ o
        | some v => exact .set o _ hk
      have htouch := (hset o ((o.num .cni).map fun n => cInt (n - 1)) .cni (by simp)).trans
        (hset _ ((o.num .cbs).bind fun n => (o.num .cs).map fun cs => cInt (n - cs)) .cbs (by simp))
      have hback : ContentKept (fun _ => False) s₂ (s₂.setObj n.id _) := h₂.keptSetObj fun m hm hid => by
        rw [ht₂] at hm
        obtain ⟨m₀, hm₀, hid₀, rfl⟩ := hnodes m hm hid
        exact ⟨((hsep m₀ hm₀).mp hid₀).1, .of_touches htouch (by decide) (by decide) (by decide)⟩
      have hrows : ContentKept (fun _ => False) _ (s₂.rollbackFcnt n.id ri o) :=
        (h₂.kept hback).keptDb (sizesFrom_update (.inl rfl) rfl)
      refine ⟨(h₂.kept hback).kept hrows, fun x hx hxty => .inl ?_⟩
      have hx₂ := ((hback.trans hrows).fcins x hx hxty).resolve_right id
      rw [ht₂] at hx₂
      exact hfcins x hx₂ hxty
  · cases he
    exact ⟨h₁, fun x hx hxty => .inl (hfcins x hx hxty)⟩

/-- The part about `fcied` adds an instance itself only where the body sets it to false, and asks for one only where it
does not. -/
theorem applyFcied_early {body' : Obj} {content needs : Bool} (hs : s.NodupIds)
    (h : s.applyFcied e req n body content = some (.ok (s', obj, body', needs))) :
    ((body.get .fcied).any Json.isFalse = true ∧ needs = false) ∨
      ((body.get .fcied).any Json.isFalse = false ∧
        ((s.setObj n.id obj).Removes n.id s' ∨ (obj = n.obj ∧ s.Removes n.id s'))) := by
  unfold Server.applyFcied at h
  cases hf : body.get .fcied with
  | none =>
    have hoff : switchedOff n.obj body = false := by simp [switchedOff, hf]
    simp only [hf, hoff, Option.any_none, Bool.false_eq_true, if_false] at h
    refine .inr ⟨rfl, ?_⟩
    split at h
    · cases h
      exact .inr ⟨rfl, .refl _ _⟩
    · split at h
      · split at h
        · cases h
        · cases h
          exact .inr ⟨rfl, Server.removes_evictToLimits hs _ _⟩
      · cases h
        exact .inr ⟨rfl, .refl _ _⟩
  | some j =>
    have hfinal : fciedFinal n.obj body = some j := by simp [fciedFinal, hf]
    simp only [hf, hfinal, Option.any_some] at h ⊢
    cases j with
    | null =>
      simp only [Json.isNull, if_true] at h
      cases h
      exact .inr ⟨rfl, .inl (Server.removes_cleanupFcntInstances _ _ _)⟩
    | bool b =>
      cases b with
      | false =>
        refine .inl ⟨rfl, ?_⟩
        simp only [Json.isNull, Json.isFalse, Bool.false_eq_true, if_false, if_true] at h
        split at h
        · simp only [Option.bind_eq_bind] at h
          split at h
          · obtain ⟨⟨s₁, b⟩, -, h⟩ := Option.bind_eq_some_iff.mp h
            cases h
            rfl
          · cases h
            rfl
        · cases h
          rfl
      | true =>
        refine .inr ⟨rfl, ?_⟩
        simp only [Json.isNull, Json.isFalse, Json.isTrue, Bool.false_eq_true, if_false, if_true] at h
        split at h
        · cases h
        · cases h
          exact .inr ⟨rfl, Server.removes_evictToLimits hs _ _⟩
    | _ =>
      simp only [Json.isNull, Json.isFalse, Json.isTrue, Bool.false_eq_true, if_false] at h
      cases h
      exact .inr ⟨rfl, .inr ⟨rfl, .refl _ _⟩⟩

/-- The body of an update up to its state tag and its size. -/
theorem touches_fcntUpdateBody (kept : Json → List Json) (now : CStr) (target pc : Obj) :
    Assoc.Touches [.lt, .aa, .at, .other "or".toList, .other "oref".toList] pc
      (Obj.add (processAnncAtUpdate kept target (validateAa .update (renameOr pc) .fcnt)).1 .lt (.str now)) :=
  ((((touches_renameOr pc).mono (by simp)).trans ((touches_validateAa .update _ .fcnt).mono (by simp))).trans
    ((touches_processAnncAtUpdate kept target _).mono (by simp))).trans (Assoc.Touches.add _ _ (by simp : Attr.lt ∈ _))

/-- The one size in the body of an update. -/
theorem entries_cs_addFcntState (print : Json → CStr) (target custom : Obj) {body : Obj} (hb : Assoc.entries body .cs = []) :
    Assoc.entries (addFcntState print target custom body) .cs = [(.cs, .int (if custom.isEmpty then
      contentSize print (customAttributes target)
      else contentSize print (if (customAttributes target).isEmpty then custom
        else applyCustom (customAttributes target) custom)))] := by
  unfold addFcntState
  by_cases hc : custom.isEmpty = true
  · rw [if_pos hc, if_pos hc]
    exact (Assoc.entries_add_self ..).trans (by rw [hb]; rfl)
  · rw [if_neg hc, if_neg hc]
    dsimp only
    refine (Assoc.entries_add_self ..).trans ?_
    have hst : Assoc.entries (((target.num .st).map fun st => body.add .st (.int (cInt (st + 1)))).getD body) .cs = [] := by
      cases target.num .st with
      | none => exact hb
      | some st => exact (Assoc.entries_add_ne (by decide)).trans hb
    rw [hst]
    rfl

/-- `update_fcnt` that is carried out keeps the sizes, and its instance shows the content the flexContainer had. -/
theorem SizedInv.updateFcnt (h : SizedInv print s) (hn : n ∈ s.tree.nodes) (hty : n.ty = .fcnt) {sn : Option CStr} {r : Resp}
    (hp : e.print = print) (hm : MergesAlike (customAttributes n.obj) (customAttributes req.pc))
    (hpc : PlainNames (customAttributes req.pc)) (he : s.updateFcnt e sn req n = some (s', r)) (hok : r.rsc = .updated) :
    SizedInv print s' ∧ ∀ x ∈ s'.tree.nodes, x.ty = .fcin → x ∈ s.tree.nodes ∨
      (s.nextId ≤ x.id ∧ ShowsIn (if (req.pc.get .fcied).any Json.isFalse then s else s') x) := by
  obtain ⟨ri, hw⟩ := h.sized n hn hty
  have hnri : n.ri = some ri := Obj.str_of_get hw.named
  unfold Server.updateFcnt at he
  split at he
  · cases he
    cases hok
  rename_i hkeys
  split at he
  · cases he
    cases hok
  rename_i hrelease
  dsimp only at he
  split at he
  · rename_i hcheck
    cases he
    exact absurd hok ((denies_checkFcntUpdate _ _ _ _ _ _).ne_updated hcheck)
  have hno : ∀ k ∈ fcntInvalidKeys, req.pc.get k = none := by
    intro k hk
    refine Assoc.has_eq_false.mp (Bool.eq_false_iff.mpr fun hh => hkeys ?_)
    exact List.any_eq_true.mpr ⟨k, hk, hh⟩
  have hcustom : customAttributes (renameOr req.pc) = customAttributes req.pc :=
    customAttributes_of_touches (touches_renameOr _) (by decide)
  simp only [RTNode.ri, Obj.str_of_get hw.named, Option.bind_eq_bind, Option.bind_some, hcustom] at he
  -- the server once `at` is cleared
  obtain ⟨s₀, hs₀, h₀, ht₀, hn₀⟩ : ∃ s₀,
      (if (processAnncAtUpdate e.kept n.obj (validateAa .update (renameOr req.pc) .fcnt)).2 then
        { s with db := s.db.dbUpdateResource [(.at, .null)] ri } else s) = s₀ ∧ ContentKept (fun _ => False) s s₀ ∧
      s₀.tree = s.tree ∧ s₀.nextId = s.nextId := by
    split
    · exact ⟨_, rfl, h.keptDb (sizesFrom_update (.inl rfl) rfl), rfl, rfl⟩
    · exact ⟨s, rfl, h.keptRefl, rfl, rfl⟩
  rw [hs₀] at he
  -- the body that is merged
  have hbare := touches_fcntUpdateBody e.kept e.now n.obj req.pc
  have hwide : Assoc.Touches [.lt, .st, .cs, .aa, .at, .other "or".toList, .other "oref".toList] req.pc _ := hbare.mono (by simp)
  have hbody := hwide.trans ((touches_addFcntState e.print n.obj (customAttributes req.pc) _).mono (by simp))
  have hbcs := entries_cs_addFcntState e.print n.obj (customAttributes req.pc)
    ((hbare.entries (k := .cs) (by decide)).trans (Assoc.entries_eq_nil (hno .cs (by decide))))
  rw [hp, size_of_merged hm] at hbcs
  rw [hp] at hbody he
  generalize addFcntState print n.obj (customAttributes req.pc) _ = body at he hbody hbcs
  have hbri : body.get .ri = none := (hbody.get (by decide)).trans (hno .ri (by decide))
  have hbc : customAttributes body = customAttributes req.pc := customAttributes_of_touches hbody (by decide)
  have hbf : body.get .fcied = req.pc.get .fcied := hbody.get (by decide)
  have hw₀ : SizedInv print s₀ := h.kept h₀
  have hn₀' : n ∈ s₀.tree.nodes := ht₀ ▸ hn
  have hold : ∀ x ∈ s₀.tree.nodes, x ∈ s.tree.nodes := fun x hx => ht₀ ▸ hx
  have hsep : ∀ {C : RTNode → Prop} {s₁ : Server}, ContentKept C s₀ s₁ →
      ∀ m ∈ s₁.tree.nodes, m.id = n.id ↔ m.ty = .fcnt ∧ m.ri = some ri := by
    intro C s₁ h₁ m hm
    have hback : m.ty = .fcnt → ∃ m₀ ∈ s₀.tree.nodes, m₀.ty = .fcnt ∧ m₀.id = m.id ∧ m₀.ri = m.ri := by
      intro hmty
      obtain ⟨m₀, hm₀, hmty₀, hmid₀, hsame⟩ := h₁.nodes m hm hmty
      exact ⟨m₀, hm₀, hmty₀, hmid₀, (Obj.str_congr hsame.ri).symm⟩
    constructor
    · intro hmid
      obtain ⟨m₁, hm₁, hmid₁, hmty₁⟩ := h₁.types m hm (hmid ▸ hw₀.below n hn₀')
      obtain rfl := hw₀.ids.eq hm₁ hn₀' (hmid₁.trans hmid)
      obtain ⟨m₀, hm₀, -, hmid₀, hmri⟩ := hback (hmty₁.symm.trans hty)
      obtain rfl := hw₀.ids.eq hm₀ hn₀' (hmid₀.trans hmid)
      exact ⟨hmty₁.symm.trans hty, hmri.symm.trans hnri⟩
    · rintro ⟨hmty, hmri⟩
      obtain ⟨m₀, hm₀, hmty₀, hmid₀, hri₀⟩ := hback hmty
      rw [← hmid₀]
      exact hw₀.apart m₀ hm₀ n hn₀' hmty₀ hty (hri₀.trans (hmri.trans hnri.symm))
  split at he
  · -- without release 4 there is no `fcied` and no instance
    obtain ⟨h', hx⟩ := hw₀.writeFcnt (hsep (C := fun _ => False) hw₀.keptRefl) hw.named hw.mark hbri hbc hbcs hw.plain hpc he
    refine ⟨h', fun x hxm hxty => ?_⟩
    rcases hx x hxm hxty with hx | ⟨hneeds, -⟩
    · exact .inl (hold x hx)
    · cases hneeds
  · split at he
    · rename_i hfcied
      cases he
      exact absurd hok ((denies_checkFcied _ _).ne_updated hfcied)
    · obtain ⟨applied, happ, he⟩ := Option.bind_eq_some_iff.mp he
      split at he
      · cases he
        exact absurd hok (applyFcied_error happ)
      · rename_i s₁ obj body' needs
        obtain ⟨hobj, hbody', hcases⟩ := applyFcied_some hw₀.ids happ
        have hsame : SameContent n.obj obj := .of_touches hobj (by decide) (by decide) (by decide)
        have hearly := applyFcied_early hw₀.ids happ
        rw [hbf] at hearly
        have hset : ContentKept (fun _ => False) s₀ (s₀.setObj n.id obj) := hw₀.keptSetObj fun m hm hid => by
          obtain rfl := hw₀.ids.eq hm hn₀' hid
          exact ⟨hty, hsame⟩
        -- what is written, whatever the part about `fcied` has done
        have hwrite : ∀ {C : RTNode → Prop}, ContentKept C s₀ s₁ → SizedInv print s' ∧ ∀ x ∈ s'.tree.nodes, x.ty = .fcin →
            (x ∈ s₀.tree.nodes ∨ C x) ∨ (needs = true ∧ s₀.nextId ≤ x.id ∧ ShowsIn s' x) := by
          intro C h₁
          have hcs := (hbody'.entries (k := .cs) (by decide)).trans hbcs
          rw [← hsame.custom] at hcs
          obtain ⟨h', hx⟩ := (hw₀.kept h₁).writeFcnt (hsep h₁) (hsame.ri.trans hw.named) hw.mark
            ((hbody'.get (by decide)).trans hbri) ((customAttributes_of_touches hbody' (by decide)).trans hbc) hcs (hsame.custom ▸ hw.plain) hpc he
          refine ⟨h', fun x hxm hxty => ?_⟩
          rcases hx x hxm hxty with hx | ⟨hneeds, hid, hshow⟩
          · exact .inl (h₁.fcins x hx hxty)
          · exact .inr ⟨hneeds, h₁.next.trans hid, hshow⟩
        rcases hearly with ⟨hf, hneeds⟩ | ⟨hf, hr⟩
        · -- the instance is taken before the body is merged
          have h₁ : ContentKept (InstanceOf n s₀.nextId) s₀ s₁ := by
            rcases hcases with hr | ⟨-, hr⟩ | ⟨-, s₂, b, hadd, hr⟩
            · exact (hset.trans ((hw₀.kept hset).keptRemoves hr)).mono fun _ hx => hx.elim
            · exact hw₀.keptRemoves hr
            · have h₂ := hw₀.keptInstance hw.plain hadd
              exact h₂.trans ((hw₀.kept h₂).keptRemoves hr)
          obtain ⟨h', hx⟩ := hwrite h₁
          refine ⟨h', fun x hxm hxty => ?_⟩
          rw [if_pos hf]
          rcases hx x hxm hxty with (hx | hx) | ⟨hneeds', -⟩
          · exact .inl (hold x hx)
          · exact .inr ⟨hn₀ ▸ hx.new, hx.showsIn h hn hty (.refl _)⟩
          · rw [hneeds] at hneeds'
            cases hneeds'
        · have h₁ : ContentKept (fun _ => False) s₀ s₁ := by
            rcases hr with hr | ⟨-, hr⟩
            · exact hset.trans ((hw₀.kept hset).keptRemoves hr)
            · exact hw₀.keptRemoves hr
          obtain ⟨h', hx⟩ := hwrite h₁
          refine ⟨h', fun x hxm hxty => ?_⟩
          rw [hf]
          rcases hx x hxm hxty with (hx | hx) | ⟨-, hid, hshow⟩
          · exact .inl (hold x hx)
          · exact hx.elim
          · exact .inr ⟨hn₀ ▸ hid, hshow⟩

end Update

/-! ## A creation -/

section Create

variable {print : Json → CStr} {s s' : Server} {e : FcntEnv} {req : Req} {p : RTNode} {ri : CStr} {o : Obj}

/-- A flexContainer is linked, with the size of its custom attributes. -/
theorem SizedInv.born (h : SizedInv print s) {i : Nat} {x : RTNode} (hid : x.id = s.nextId) (hw : Weighed print s'.db x ri)
    (hnew : ∀ m ∈ s.tree.nodes, m.ri ≠ some ri) (ht : s'.tree = s.tree.graft (RTNode.hasId i) (insertChild x))
    (hn : s'.nextId = s.nextId + 1)
    (hdb : ∀ r' ∈ s'.db, ∀ y, r'.ri = some y → y.head? = some '2' → y ≠ ri →
      ∃ r ∈ s.db, r.ri = some y ∧ r'.obj.get .cs = r.obj.get .cs) :
    SizedInv print s' := by
  obtain ⟨hids, hnodes⟩ := Server.mem_nodes_graft h.ids (fun n hm => by have := h.below n hm; omega) ht
  have hxri : x.ri = some ri := Obj.str_of_get hw.named
  refine ⟨hids, fun m hm => ?_, fun m hm hty => ?_, fun m hm q hq hmty hqty he => ?_⟩
  · rcases hnodes m hm with rfl | hm
    · omega
    · have := h.below m hm
      omega
  · rcases hnodes m hm with rfl | hm
    · exact ⟨ri, hw⟩
    · obtain ⟨y, hy⟩ := h.sized m hm hty
      have hne : y ≠ ri := fun he => hnew m hm (he ▸ Obj.str_of_get hy.named)
      refine ⟨y, hy.named, hy.mark, hy.size, fun r' hr' hri' => ?_, hy.plain⟩
      obtain ⟨r, hr, hrri, hcs⟩ := hdb r' hr' y hri' hy.mark hne
      exact hcs.trans (hy.rows r hr hrri)
  · rcases hnodes m hm with rfl | hm <;> rcases hnodes q hq with rfl | hq
    · rfl
    · exact absurd (he.symm.trans hxri) (hnew q hq)
    · exact absurd (he.trans hxri) (hnew m hm)
    · exact h.apart m hm q hq hmty hqty he

/-- An instance with an address from `i` on shows the content of a flexContainer of the tree. -/
def ShowsLive (s : Server) (i : Nat) (x : RTNode) : Prop :=
  ∃ n, InstanceOf n i x ∧ ∃ m ∈ s.tree.nodes, m.ty = .fcnt ∧ SameContent n.obj m.obj

/-- The end of `create_fcnt`. -/
theorem SizedInv.storeFcnt (h : SizedInv print s) (hp : p ∈ s.tree.nodes) {custom : Obj} {r : Resp}
    (hty : o.get .ty = some (.int ResourceType.fcnt.code)) (hori : o.get .ri = some (.str ri)) (hmark : ri.head? = some '2')
    (hcs : o.get .cs = some (.int (contentSize print (customAttributes o)))) (hplain : PlainNames (customAttributes o))
    (hnew : ∀ m ∈ s.tree.nodes, m.ri ≠ some ri) (hfree : ∀ r ∈ s.db, r.ri ≠ some ri)
    (he : s.storeFcnt e req p custom (contentSize print (customAttributes o)) o = some (s', r)) :
    SizedInv print s' ∧ ∀ x ∈ s'.tree.nodes, x.ty = .fcin → x ∈ s.tree.nodes ∨ ShowsLive s' s.nextId x := by
  have hget : ∀ k, isStandardFcntAttribute k = false → o.get k = (customAttributes o).get k := by
    intro k hk
    unfold customAttributes
    rw [Obj.get, Obj.get, Assoc.get_filterKeys, if_pos (by simp [hk])]
  have hout : ∀ k, (∀ e ∈ customAttributes o, e.1 ≠ k) → (customAttributes o).get k = none := by
    intro k hk
    refine Assoc.get_eq_none_iff.mpr fun hm => ?_
    obtain ⟨e, he, hek⟩ := List.mem_map.mp hm
    exact hk e he hek
  have hrow : ∀ k, k ∈ columns .fcnt → Obj.get (inColumns .fcnt o) k = o.get k := by
    intro k hk
    unfold inColumns
    rw [Obj.get, Assoc.get_filterKeys, if_pos (List.any_eq_true.mpr ⟨k, hk, decide_eq_true rfl⟩)]
  unfold Server.storeFcnt at he
  simp only [Option.bind_eq_bind] at he
  obtain ⟨rn, hrn, he⟩ := Option.bind_eq_some_iff.mp he
  have hok : s.db.dbStoreResource (inColumns .fcnt o) (p.uri ++ '/' :: rn) =
      some (s.db ++ [⟨p.uri ++ '/' :: rn, .fcnt, Assoc.drop (Assoc.overlay column (inColumns .fcnt o) []) .uri⟩]) :=
    (Db.dbStoreResource_code (by decide) ((hrow .ty (by decide)).trans hty)).mpr rfl
  rw [hok] at he
  dsimp only at he
  rw [Obj.str_of_get hori, Option.bind_some] at he
  obtain ⟨x, hx, he⟩ := Option.bind_eq_some_iff.mp he
  obtain ⟨hid, hxty, -⟩ := createRtnode_some hx
  have hxo : x.obj = o := by
    refine createRtnode_obj hx ((hget .uri (by decide)).trans (hout .uri fun e he => (hplain e he).1))
      ((hget .memberOf (by decide)).trans (hout .memberOf fun e he => (hplain e he).2.1)) fun k hk => ?_
    rw [hget k (by revert hk; revert k; decide)]
    cases hg : (customAttributes o).get k with
    | none => rfl
    | some v => exact (hplain (k, v) (Assoc.mem_of_get hg)).2.2 hk
  -- the new row
  generalize hq : (⟨p.uri ++ '/' :: rn, .fcnt, Assoc.drop (Assoc.overlay column (inColumns .fcnt o) []) .uri⟩ : Row) = q at he
  have hqri : q.ri = some ri := by
    subst hq
    refine Obj.str_of_get ((Db.get_stored _ (by decide)).trans ?_)
    rw [hrow .ri (by decide), hori]
    exact (Option.bind_some ..).trans (column_str (AttrInv.ri_ne_nil hmark))
  have hqcs : q.obj.get .cs = column (.int (contentSize print (customAttributes o))) := by
    subst hq
    refine (Db.get_stored _ (by decide)).trans ?_
    rw [hrow .cs (by decide), hcs]
    rfl
  -- the server before the instance is added
  obtain ⟨db₁, hdb₁, hstored⟩ : ∃ db₁, (if custom.isEmpty = true then s.db ++ [q] else
      Db.dbStoreFcntCustomAttributes e.backend (s.db ++ [q]) ri custom) = db₁ ∧ SizesFrom (s.db ++ [q]) db₁ := by
    refine ⟨_, rfl, ?_⟩
    split
    · exact .refl _
    · exact sizesFrom_store
  rw [hdb₁] at he
  obtain ⟨s₁, hs₁, ht, hn, hdb⟩ : ∃ s₁, Server.addChildResourceTree { s with db := db₁, nextId := s.nextId + 1 } p x = s₁ ∧
      s₁.tree = s.tree.graft (RTNode.hasId p.id) (insertChild { x with uri := p.uri ++ '/' :: x.rn }) ∧
      s₁.nextId = s.nextId + 1 ∧ s₁.db = db₁ := by
    refine ⟨_, rfl, ?_⟩
    rw [Server.addChildResourceTree_plain (by rw [hxty]; decide) (by rw [hxty]; decide)]
    exact ⟨rfl, rfl, rfl⟩
  rw [hs₁] at he
  rw [← hdb] at hstored
  generalize hx₁ : ({ x with uri := p.uri ++ '/' :: x.rn } : RTNode) = x₁ at he ht
  have hx₁o : x₁.obj = o := by
    rw [← hx₁]
    exact hxo
  have hx₁id : x₁.id = s.nextId := by
    rw [← hx₁]
    exact hid
  have hx₁ty : x₁.ty = .fcnt := by
    rw [← hx₁]
    exact hxty
  have hrows : ∀ r' ∈ s₁.db, ∀ y, r'.ri = some y → y.head? = some '2' → ∃ r, (r ∈ s.db ∨ r = q) ∧ r.ri = some y ∧
      r'.obj.get .cs = r.obj.get .cs := by
    intro r' hr' y hy hm
    obtain ⟨r, hr, hry, hcs⟩ := hstored r' hr' y hy hm
    exact ⟨r, by simpa using hr, hry, hcs⟩
  have hne : ∀ m ∈ s.tree.nodes, m.id ≠ x₁.id := fun m hm => by
    have := h.below m hm
    omega
  have h₁ : SizedInv print s₁ := by
    have hplain₁ : PlainNames (customAttributes x₁.obj) := by rw [hx₁o]; exact hplain
    refine h.born hx₁id ⟨by rw [hx₁o]; exact hori, hmark, by rw [hx₁o]; exact hcs, fun r' hr' hri' => ?_, hplain₁⟩
      hnew ht hn fun r' hr' y hy hm hne => ?_
    · rw [hx₁o]
      obtain ⟨r, hr | rfl, hrri, hrcs⟩ := hrows r' hr' ri hri' hmark
      · exact absurd hrri (hfree r hr)
      · exact hrcs.trans hqcs
    · obtain ⟨r, hr | rfl, hrri, hrcs⟩ := hrows r' hr' y hy hm
      · exact ⟨r, hr, hrri, hrcs⟩
      · exact absurd (Option.some.inj (hrri.symm.trans hqri)) hne
  have hmem : x₁ ∈ s₁.tree.nodes := by
    rw [ht]
    exact (Server.nodes_graft h.ids hp rfl).symm.subset List.mem_cons_self
  have hfcins : ∀ y ∈ s₁.tree.nodes, y.ty = .fcin → y ∈ s.tree.nodes := by
    intro y hy hyty
    rcases (Server.mem_nodes_graft h.ids hne ht).2 y hy with rfl | hy
    · exact absurd (hx₁ty.symm.trans hyty) (by decide)
    · exact hy
  split at he
  · obtain ⟨⟨s₂, added⟩, hadd, he⟩ := Option.bind_eq_some_iff.mp he
    have hkept := h₁.keptInstance (by rw [hx₁o]; exact hplain) hadd
    have h₂ := h₁.kept hkept
    have hmem₂ : x₁ ∈ s₂.tree.nodes := mem_addInstance h₁.ids hmem rfl hadd x₁ hmem
    have hnew₂ : ∀ y ∈ s₂.tree.nodes, y.ty = .fcin → y ∈ s.tree.nodes ∨ InstanceOf x₁ s.nextId y := by
      intro y hy hyty
      refine (hkept.fcins y hy hyty).imp (hfcins y · hyty) fun hy => ⟨?_, hy.pi, hy.cs, hy.custom⟩
      have := hy.new
      omega
    dsimp only at he
    split at he
    · cases he
      have htouch : Assoc.Touches [.cni, .cbs] x₁.obj ((x₁.obj.add .cni (.int 1)).add .cbs
          (.int (contentSize print (customAttributes o)))) :=
        (Assoc.Touches.add _ _ (by simp)).trans (.add _ _ (by simp))
      rw [show x.obj = x₁.obj by rw [← hx₁], show x.id = x₁.id by rw [← hx₁]]
      generalize (x₁.obj.add .cni (.int 1)).add .cbs (.int (contentSize print (customAttributes o))) = obj at htouch ⊢
      have hsame : SameContent x₁.obj obj := .of_touches htouch (by decide) (by decide) (by decide)
      have hobjri : obj.get .ri = some (.str ri) := hsame.ri.trans (by rw [hx₁o]; exact hori)
      have hobjcs : obj.get .cs = some (.int (contentSize print (customAttributes obj))) := by
        rw [hsame.cs, hsame.custom, hx₁o]
        exact hcs
      have haddr : Addresses (inColumns .fcnt obj) ri := addresses_inColumns (.inr hobjri)
      have hsep : ∀ m ∈ s₂.tree.nodes, m.id = x₁.id ↔ m.ty = .fcnt ∧ m.ri = some ri := by
        have hx₁ri : x₁.ri = some ri := Obj.str_of_get (by rw [hx₁o]; exact hori)
        intro m hm
        constructor
        · intro hmid
          rw [h₂.ids.eq hm hmem₂ hmid]
          exact ⟨hx₁ty, hx₁ri⟩
        · rintro ⟨hmty, hmri⟩
          exact h₂.apart m hm x₁ hmem₂ hmty hx₁ty (hmri.trans hx₁ri.symm)
      generalize hs' : ({ s₂.setObj x₁.id obj with
        db := (s₂.setObj x₁.id obj).db.dbUpdateResource (inColumns .fcnt obj) ri } : Server) = s'
      have hdb' : s'.db = s₂.db.dbUpdateResource (inColumns .fcnt obj) ri := by rw [← hs', Server.setObj_db]
      obtain ⟨h', hback, hat⟩ : SizedInv print s' ∧ (∀ y ∈ s'.tree.nodes, y.ty = .fcin → y ∈ s₂.tree.nodes) ∧
          ∀ m ∈ s₂.tree.nodes, m.id = x₁.id → { m with obj := obj } ∈ s'.tree.nodes := by
        refine h₂.weighed hsep hobjri hobjcs (by rw [hsame.custom, hx₁o]; exact hplain) (by rw [← hs']) (by rw [← hs']; rfl)
          (fun r' hr' hri' => ?_) fun r' hr' y hy _ hne => ?_
        · obtain ⟨r₀, -, ⟨-, rfl⟩ | ⟨hne, rfl⟩⟩ := mem_dbUpdateResource.mp (hdb' ▸ hr')
          · have hcol : (inColumns .fcnt obj).get .cs = obj.get .cs := by
              unfold inColumns
              rw [Obj.get, Assoc.get_filterKeys, if_pos (by decide)]
            rw [get_written r₀ _ (by decide), hcol, hobjcs]
            rfl
          · exact absurd hri' hne
        · obtain ⟨r₀, hr₀, ⟨hr₀ri, rfl⟩ | ⟨-, rfl⟩⟩ := mem_dbUpdateResource.mp (hdb' ▸ hr')
          · rcases haddr.ri_written hr₀ri with he | he
            · exact absurd (Option.some.inj (hy.symm.trans he)) hne
            · cases hy.symm.trans he
          · exact ⟨_, hr₀, hy, rfl⟩
      exact ⟨h', fun y hy hyty => (hnew₂ y (hback y hy hyty) hyty).imp_right fun hy =>
        ⟨x₁, hy, _, hat x₁ hmem₂ rfl, hx₁ty, hsame⟩⟩
    · cases he
      exact ⟨h₂, fun y hy hyty => (hnew₂ y hy hyty).imp_right fun hy => ⟨x₁, hy, x₁, hmem₂, hx₁ty, .refl _⟩⟩
  · cases he
    exact ⟨h₁, fun y hy hyty => .inl (hfcins y hy hyty)⟩

/-- The size of a new flexContainer. -/
theorem get_cs_buildFcnt {size : Int} {o' : Obj} (h : buildFcnt e req s size o = .ok o') (hc : o.get .cs = none) :
    o'.get .cs = some (.int size) := by
  unfold buildFcnt at h
  obtain ⟨⟨⟩, -, h⟩ := bind_ok h
  obtain ⟨o₁, hcr, h⟩ := bind_ok h
  obtain ⟨⟨⟩, -, h⟩ := bind_ok h
  cases h
  have htouch : Assoc.Touches [.aa, .cr, .at, .st] o ((announceAt e.toEnv o₁).add .st (.int 0)) :=
    ((((touches_validateAa .create o .fcnt).mono (by simp)).trans ((touches_assignFcntCreator hcr).mono (by simp))).trans
      ((touches_announceAt e.toEnv o₁).mono (by simp))).trans (.add _ _ (by simp))
  have hnone : Obj.get ((announceAt e.toEnv o₁).add .st (.int 0)) .cs = none := (htouch.get (by decide)).trans hc
  have hadd : Obj.get (((announceAt e.toEnv o₁).add .st (.int 0)).add .cs (.int size)) .cs = some (.int size) := by
    refine (Assoc.get_add ..).trans ?_
    rw [show Assoc.get ((announceAt e.toEnv o₁).add .st (.int 0)) .cs = none from hnone, if_pos rfl]
    rfl
  split
  · exact ((touches_addFcntLimits _).get (by decide)).trans hadd
  · exact hadd

/-- `create_fcnt` keeps the sizes, and its instance shows the content of the new flexContainer. -/
theorem SizedInv.createFcnt (h : SizedInv print s) (hp : p ∈ s.tree.nodes) {sn : Option CStr} {r : Resp}
    (hprint : e.print = print) (hun : Unused s (resourceIdentifier .fcnt e.now s.riCount).1)
    (hpc : PlainNames (customAttributes req.pc))
    (he : s.createFcnt e sn req p = some (s', r)) (hok : r.rsc = .created) :
    SizedInv print s' ∧ ∀ x ∈ s'.tree.nodes, x.ty = .fcin → x ∈ s.tree.nodes ∨ ShowsLive s' s.nextId x := by
  have hcustom : customAttributes (fcntBody sn req.pc) = customAttributes req.pc :=
    customAttributes_of_touches (touches_fcntBody sn req.pc) (by decide)
  unfold Server.createFcnt at he
  dsimp only at he
  split at he
  · cases he
    exact ⟨h, fun _ hx _ => .inl hx⟩
  · rename_i hcheck
    simp only [Option.bind_eq_bind] at he
    obtain ⟨⟨o₁, m⟩, hgen, he⟩ := Option.bind_eq_some_iff.mp he
    dsimp only at he
    have hfree : ∀ k ∈ fcntNotPermitted, (fcntBody sn req.pc).get k = none := by
      unfold checkFcntBody at hcheck
      obtain ⟨-, -, hcheck⟩ := bind_ok hcheck
      obtain ⟨-, -, hcheck⟩ := bind_ok hcheck
      obtain ⟨-, -, hcheck⟩ := bind_ok hcheck
      obtain ⟨-, -, hcheck⟩ := bind_ok hcheck
      obtain ⟨⟨⟩, hnot, -⟩ := bind_ok hcheck
      intro k hk
      refine Assoc.has_eq_false.mp (Bool.eq_false_iff.mpr fun hh => ?_)
      have := require_ok hnot
      rw [List.any_eq_true.mpr ⟨k, hk, hh⟩] at this
      cases this
    obtain ⟨pi, -, hget⟩ := addGeneralAttribute_some hgen
    have h' : SizedInv print { s with riCount := m } := ⟨h.ids, h.below, h.sized, h.apart⟩
    split at he
    · rename_i hd
      cases he
      exact absurd hok ((denies_buildFcnt _ _ _ _ _).ne_created hd)
    · rename_i o ho
      have htouch := touches_buildFcnt ho
      have hc : customAttributes o = customAttributes req.pc := ((customAttributes_of_touches htouch (by decide)).trans
        (customAttributes_of_touches (touches_addGeneralAttribute hgen) (by decide))).trans hcustom
      have hori : o.get .ri = some (.str (resourceIdentifier .fcnt e.now s.riCount).1) := by
        refine (htouch.get (by decide)).trans ((hget .ri).trans ?_)
        rw [hfree .ri (by decide)]
        rfl
      have hcs : o.get .cs = some (.int (contentSize print (customAttributes o))) := by
        rw [hc, ← hprint, ← hcustom]
        refine get_cs_buildFcnt ho ((hget .cs).trans ?_)
        rw [hfree .cs (by decide)]
        rfl
      have hoty : o.get .ty = some (.int ResourceType.fcnt.code) := by
        refine (htouch.get (by decide)).trans ((hget .ty).trans ?_)
        rw [hfree .ty (by decide)]
        rfl
      rw [hcustom, ← hc, hprint] at he
      exact h'.storeFcnt hp hoty hori rfl hcs (hc ▸ hpc) hun.1 (fun r hr => (hun.2 r hr).1) he

/-- `increment_parent_statetag` of a node of the tree. -/
theorem SizedInv.incrementParentStatetag (h : SizedInv print s) (now : CStr) (i : Nat) :
    ContentKept (fun _ => False) s (s.incrementParentStatetag now (.inTree i)) ∧ ∀ m ∈ s.tree.nodes, m.ty = .fcnt →
      ∃ m' ∈ (s.incrementParentStatetag now (.inTree i)).tree.nodes, m'.ty = .fcnt ∧ SameContent m.obj m'.obj := by
  have hstay : ContentKept (fun _ => False) s s ∧ ∀ m ∈ s.tree.nodes, m.ty = .fcnt →
      ∃ m' ∈ s.tree.nodes, m'.ty = .fcnt ∧ SameContent m.obj m'.obj :=
    ⟨h.keptRefl, fun m hm hmty => ⟨m, hm, hmty, .refl _⟩⟩
  unfold Server.incrementParentStatetag
  split
  · exact hstay
  · rename_i m hm
    obtain ⟨hmem, hid⟩ := Server.node?_mem hm
    split
    · exact hstay
    · rename_i hty
      rw [not_not] at hty
      split
      · rename_i st _
        split
        · dsimp only
          obtain ⟨ri, hw⟩ := h.sized m hmem hty
          have hsame : SameContent m.obj (m.obj.set .st (.int (cInt (st.valueint + 1)))) :=
            .of_touches (Assoc.Touches.set (l := [Attr.st]) m.obj _ (by simp)) (by decide) (by decide) (by decide)
          have hset := h.keptSetObj (C := fun _ => False) (i := i) fun l hl hlid => by
            rw [h.ids.eq hl hmem (hlid.trans hid.symm)]
            exact ⟨hty, hsame⟩
          simp only [RTNode.ri, Obj.str_of_get hw.named]
          refine ⟨hset.trans ((h.kept hset).keptDb (sizesFrom_update (.inl rfl) rfl)), fun q hq hqty => ?_⟩
          show ∃ m' ∈ (s.setObj i _).tree.nodes, _
          rw [Server.setObj, Server.nodes_modifyNode]
          refine ⟨_, List.mem_map.mpr ⟨q, hq, rfl⟩, ?_⟩
          by_cases hqi : q.id = i
          · rw [if_pos hqi, h.ids.eq hq hmem (hqi.trans hid.symm)]
            exact ⟨hty, hsame⟩
          · rw [if_neg hqi]
            exact ⟨hqty, .refl _⟩
        · exact hstay
      · exact hstay

theorem ShowsLive.showsIn (h : SizedInv print s) {i : Nat} {x : RTNode} (hx : ShowsLive s i x) : i ≤ x.id ∧ ShowsIn s x := by
  obtain ⟨n, hn, m, hm, hmty, hsame⟩ := hx
  exact ⟨hn.new, hn.showsIn h hm hmty hsame⟩

end Create

/-! ## Every run -/

/-- A request that is answered neither by the lookup nor for an instance is carried out on the node its target names. -/
theorem Server.onTarget_success {s s' : Server} {now addr : CStr} {loose r : Resp}
    {k : Server → RTNode → Option (Server × Resp)} (hr : r.rsc ≠ .notFound) (hl : r.rsc ≠ loose.rsc)
    (h : s.onTarget now addr loose k = some (s', r)) :
    ∃ n ∈ s.tree.nodes, s.named addr = some n ∧ k s n = some (s', r) := by
  have hgone : ∀ {s₁ : Server}, some (s₁, handleError .notFound "URI is invalid") = some (s', r) → False := by
    rintro s₁ ⟨⟩
    exact hr rfl
  unfold onTarget at h
  have hfound : s.findRtnode now addr = (s, s.resolve addr) ∨ ∃ s₁, s.findRtnode now addr = (s₁, .null) := by
    rcases findRtnode_cases (s := s) now addr with hf | ⟨n, -, -, hf⟩ | ⟨n, -, -, -, hf⟩
    · exact .inr ⟨_, hf⟩
    · exact .inl hf
    · exact .inr ⟨_, hf⟩
  rcases hfound with hf | ⟨s₁, hf⟩
  · rw [hf] at h
    dsimp only at h
    split at h
    · exact (hgone h).elim
    · cases h
      exact absurd rfl hl
    · rename_i i hp
      split at h
      · exact (hgone h).elim
      · rename_i m hm
        refine ⟨m, (node?_mem hm).1, ?_, h⟩
        unfold named
        rw [hp]
        exact hm
  · rw [hf] at h
    exact (hgone h).elim

/-- The invariant of the runs that meet the condition. -/
structure ContentInv (print : Json → CStr) (c : ContentRun) : Prop where
  sized : SizedInv print c.server
  shown : ∀ x ∈ c.server.tree.nodes, x.ty = .fcin →
    x.obj.get .cs = some (.int (c.content x.id).1) ∧ customAttributes x.obj = (c.content x.id).2

section Run

variable {print : Json → CStr} {c c' : ContentRun} {e : FcntEnv} {r : FcntRequest} {s' : Server}

theorem contentInv_fresh (h : c.Fresh) : ContentInv print c :=
  ⟨⟨h.1, h.2.1, fun n hn hty => absurd hty (h.2.2 n hn).1, fun n hn _ _ hty => absurd hty (h.2.2 n hn).1⟩,
    fun x hx hty => absurd hty (h.2.2 x hx).2⟩

/-- The content of the instances after a request, from what the request has done. -/
theorem ContentInv.after (h : ContentInv print c) (hs : SizedInv print s')
    (hx : ∀ x ∈ s'.tree.nodes, x.ty = .fcin → x ∈ c.server.tree.nodes ∨
      (c.server.nextId ≤ x.id ∧ ShowsIn (if r.early then c.server else s') x)) : ContentInv print (c.after r s') := by
  refine ⟨hs, fun x hxm hxty => ?_⟩
  rcases hx x hxm hxty with hx | ⟨hid, hshow⟩
  · have hcontent : (c.after r s').content x.id = c.content x.id := if_pos (h.sized.below x hx)
    rw [hcontent]
    exact h.shown x hx hxty
  · have hcontent : (c.after r s').content x.id = (if r.early then c.server else s').contentOf x := by
      refine (if_neg (Nat.not_lt.mpr hid)).trans ?_
      rw [Server.node?_eq hs.ids hxm]
      rfl
    rw [hcontent]
    exact hshow

theorem ContentInv.create (h : ContentInv print c) {sn : Option CStr} {req : Req} {a : Resp} (hp : e.print = print)
    (hm : FcntRequest.Merges e c.server (.create sn req)) (he : c.server.serveFcnt e (.create sn req) = some (s', a))
    (hok : a.rsc = .created) : ContentInv print (c.after (.create sn req) s') := by
  obtain ⟨p, hpm, -, he⟩ := Server.onTarget_success (by rw [hok]; decide) (by rw [hok]; decide) he
  rcases Server.createOnem2mResource_some he with hs | ⟨-, -, -, s₁, hc, hs'⟩
  · rw [hs]
    exact h.after h.sized fun x hx _ => .inl hx
  · obtain ⟨h₁, hx₁⟩ := h.sized.createFcnt hpm hp hm.1 hm.2 hc hok
    rcases hs' with rfl | rfl
    · exact h.after h₁ fun x hx hxty => (hx₁ x hx hxty).imp_right (·.showsIn h₁)
    · obtain ⟨hk, hstay⟩ := h₁.incrementParentStatetag e.now p.id
      refine h.after (h₁.kept hk) fun x hx hxty => ?_
      refine (hx₁ x ((hk.fcins x hx hxty).resolve_right id) hxty).imp_right ?_
      rintro ⟨n, hn, m, hmm, hmty, hsame⟩
      obtain ⟨m', hm', hmty', hsame'⟩ := hstay m hmm hmty
      exact ShowsLive.showsIn (h₁.kept hk) ⟨n, hn, m', hm', hmty', hsame.trans hsame'⟩

theorem ContentInv.update (h : ContentInv print c) {sn : Option CStr} {req : Req} {a : Resp} (hp : e.print = print)
    (hm : FcntRequest.Merges e c.server (.update sn req)) (he : c.server.serveFcnt e (.update sn req) = some (s', a))
    (hok : a.rsc = .updated) : ContentInv print (c.after (.update sn req) s') := by
  unfold Server.serveFcnt Server.requestUpdateFcnt at he
  obtain ⟨n, hn, hnamed, he⟩ := Server.onTarget_success (by rw [hok]; decide) (by rw [hok]; decide) he
  have hsame : ∀ r : Resp, r.rsc ≠ .updated → some (c.server, r) = some (s', a) →
      ContentInv print (c.after (.update sn req) s') := by
    rintro r hne ⟨⟩
    exact absurd hok hne
  split at he
  · exact hsame _ (by decide) he
  · split at he
    · exact hsame _ (by decide) he
    · rename_i hty
      rw [not_not] at hty
      split at he
      · exact hsame _ (by decide) he
      · split at he
        · exact hsame _ (by decide) he
        · obtain ⟨h', hx⟩ := h.sized.updateFcnt hn hty hp (hm.2 n hnamed hty) hm.1 he hok
          exact h.after h' hx

theorem contentInv_step (h : ContentInv print c) (hs : MergingStep print c c') : ContentInv print c' := by
  obtain ⟨e, r, ⟨s', a⟩, hp, hm, he, hok, rfl⟩ := hs
  cases r with
  | create sn req => exact h.create hp hm he hok
  | update sn req => exact h.update hp hm he hok

theorem ContentInv.showsContent (h : ContentInv print c) : c.ShowsContent print := by
  refine ⟨fun n hn hty => ?_, h.shown⟩
  obtain ⟨ri, hw⟩ := h.sized.sized n hn hty
  exact ⟨ri, Obj.str_of_get hw.named, hw.size, hw.rows⟩

end Run

/-- In every run whose requests meet the condition, every flexContainer has the size of its custom attributes, in its object
and in its row, and every instance shows the size and the custom attributes its flexContainer had when it was made. -/
theorem content_of_merging_run {print : Json → CStr} {c : ContentRun} (h : Reach ContentRun.Fresh (MergingStep print) c) :
    c.ShowsContent print :=
  (h.inv (I := ContentInv print) (fun _ => contentInv_fresh) fun _ _ => contentInv_step).showsContent

/-! ## Two runs -/

/-- An object of integers, as it is printed without blanks. -/
def printIntegers : Json → CStr
  | .num v => Decimal.ofInt v.num
  | .obj m => '\x7b' :: ((m.map fun e => '"' :: e.1.name ++ ['"', ':'] ++
      match e.2 with
      | .num v => Decimal.ofInt v.num
      | _ => "null".toList).intersperse [',']).flatten ++ ['\x7d']
  | _ => "null".toList

/-- The first day, with the sizes of what is printed. -/
def weighingDay : FcntEnv := { warmDay with print := printIntegers }

/-- A flexContainer that keeps instances. -/
def createKeeping : FcntRequest :=
  .create none { adminReq .create "TinyIoT" .fcnt [(.rn, .str "w".toList),
    (.cnd, .str "org.onem2m.common.moduleclass.keepWarm".toList), (.fcied, .bool true), (warmTime, .int 3)] with rvi := 4 }

/-- A flexContainer without custom attributes. -/
def createBare : FcntRequest :=
  .create none { adminReq .create "TinyIoT" .fcnt [(.rn, .str "w".toList),
    (.cnd, .str "org.onem2m.common.moduleclass.keepWarm".toList)] with rvi := 4 }

def startContent (s : Server) : ContentRun := ⟨s, fun _ => (0, [])⟩

theorem content_of_merging_run_keeping : ∃ c, Reach ContentRun.Fresh (MergingStep printIntegers) c ∧
    (c.server.tree.nodes.filter fun n => n.ty = .fcin).length = 2 ∧ c.ShowsContent printIntegers := by
  have hrun : ((boot firstDay).bind fun s => [createKeeping, updateWarm [(warmTime, .int 50), (warmTarget, .int 41)]].foldlM
      (fun (c : ContentRun) r => if r.Merges weighingDay c.server then
        (c.server.serveFcnt weighingDay r).bind fun x => if x.2.rsc = r.success then some (c.after r x.1) else none else none)
      (startContent s)).any (fun c => (c.server.tree.nodes.filter fun n => n.ty = .fcin).length = 2) = true := by
    decide +kernel
  have hfresh : (boot firstDay).all (fun s => decide (startContent s).Fresh) = true := by decide +kernel
  obtain ⟨c, hc, hn⟩ := (Option.any_eq_true _ _).mp hrun
  obtain ⟨s₀, hb, hc⟩ := Option.bind_eq_some_iff.mp hc
  rw [hb] at hfresh
  have hr : Reach ContentRun.Fresh (MergingStep printIntegers) c := by
    refine Reach.of_foldlM ?_ _ (.start (of_decide_eq_true hfresh)) hc
    intro c r c' hc'
    split at hc'
    · rename_i hok
      obtain ⟨x, he, hx⟩ := Option.bind_eq_some_iff.mp hc'
      split at hx
      · rename_i hrsc
        cases hx
        exact ⟨weighingDay, r, x, rfl, hok, he, hrsc, rfl⟩
      · cases hx
    · cases hc'
  exact ⟨c, hr, of_decide_eq_true hn, content_of_merging_run hr⟩

/-- A name that an update gives twice to a flexContainer without custom attributes counts twice. -/
theorem content_counted_twice :
    ¬ ∀ print c, Reach ContentRun.Fresh (ContentStep print) c → c.ShowsContent print := by
  intro h
  have hrun : ((boot firstDay).bind fun s => [createBare, updateWarm [(warmTime, .int 3), (warmTime, .int 5)]].foldlM
      (fun (c : ContentRun) r => (c.server.serveFcnt weighingDay r).bind fun x =>
        if x.2.rsc = r.success then some (c.after r x.1) else none) (startContent s)).any
      (fun c => c.server.tree.nodes.any fun n => n.ty = .fcnt && (n.obj.num .cs = some 19) &&
        (contentSize printIntegers (customAttributes n.obj) = 10)) = true := by decide +kernel
  have hfresh : (boot firstDay).all (fun s => decide (startContent s).Fresh) = true := by decide +kernel
  obtain ⟨c, hc, hn⟩ := (Option.any_eq_true _ _).mp hrun
  obtain ⟨s₀, hb, hc⟩ := Option.bind_eq_some_iff.mp hc
  rw [hb] at hfresh
  have hr : Reach ContentRun.Fresh (ContentStep printIntegers) c := by
    refine Reach.of_foldlM ?_ _ (.start (of_decide_eq_true hfresh)) hc
    intro c r c' hc'
    obtain ⟨x, he, hx⟩ := Option.bind_eq_some_iff.mp hc'
    split at hx
    · rename_i hrsc
      cases hx
      exact ⟨weighingDay, r, x, rfl, he, hrsc, rfl⟩
    · cases hx
  obtain ⟨n, hmem, hn⟩ := List.any_eq_true.mp hn
  simp only [Bool.and_eq_true, decide_eq_true_eq] at hn
  obtain ⟨⟨hty, hcs⟩, hsize⟩ := hn
  obtain ⟨ri, -, hget, -⟩ := (h printIntegers c hr).size n hmem hty
  have hnum : n.obj.num .cs = some 10 := by
    unfold Obj.num
    rw [hget, hsize]
    rfl
  rw [hnum] at hcs
  cases hcs

end TinyIoT
