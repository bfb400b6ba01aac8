/-
Eviction keeps the books: `delete_cin_under_cnt_mni_mbs` takes instances out of the rows one by one and
moves the counters it works on by exactly what each removed instance was counted for.
-/
import TinyIoT.Container.Accounting

namespace TinyIoT

/-- The DELETE statement of every instance of a container meets that instance only. -/
def CleanRows (db : Db) (ri : CStr) : Prop :=
  ∀ k ∈ db.keys .cin, k.pi = some ri → ∀ k' ∈ db.keys .cin, like (k.uri ++ ['/', '%']) k'.uri = true → k'.ri = k.ri

/-- Counters that are `a` instances and `b` bytes ahead of the rows of `ri`, without overflow. -/
structure Ahead (db : Db) (ri : CStr) (a b cni cbs : Int) : Prop where
  cni_eq : cni = db.count .cin ri + a
  cbs_eq : cbs = db.total .cin ri + b
  cni_le : cni ≤ intMax
  cbs_le : cbs ≤ intMax

section

variable {d : Pending} {nodes : List RTNode} {db db' : Db} {ri : CStr} {a b cni cbs cni' cbs' : Int}

/-- What eviction leaves: fewer rows, and the books moved by what the counters moved. -/
structure Evicted (d : Pending) (nodes : List RTNode) (db : Db) (ri : CStr) (a b cni cbs : Int)
    (db' : Db) (cni' cbs' : Int) : Prop where
  sub : ∀ r ∈ db', r ∈ db
  books : Books (d.bump ri (cni - cni') (cbs - cbs')) nodes (db'.keys .cin)
  ahead : Ahead db' ri a b cni' cbs'

theorem Evicted.refl (hb : Books d nodes (db.keys .cin)) (h : Ahead db ri a b cni cbs) :
    Evicted d nodes db ri a b cni cbs db cni cbs := by
  refine ⟨fun _ hr => hr, ?_, h⟩
  rw [Int.sub_self, Int.sub_self, Pending.bump_zero]
  exact hb

theorem Evicted.trans {db₁ : Db} {cni₁ cbs₁ : Int} (h₁ : Evicted d nodes db ri a b cni cbs db₁ cni₁ cbs₁)
    (h₂ : Evicted (d.bump ri (cni - cni₁) (cbs - cbs₁)) nodes db₁ ri a b cni₁ cbs₁ db' cni' cbs') :
    Evicted d nodes db ri a b cni cbs db' cni' cbs' := by
  refine ⟨fun r hr => h₁.sub r (h₂.sub r hr), ?_, h₂.ahead⟩
  have := h₂.books
  rw [Pending.bump_bump] at this
  rwa [show cni - cni₁ + (cni₁ - cni') = cni - cni' by omega,
    show cbs - cbs₁ + (cbs₁ - cbs') = cbs - cbs' by omega] at this

/-- The removal of one row of the container. -/
theorem evicted_one (hb : Books d nodes (db.keys .cin)) (h : Ahead db ri a b cni cbs) (ha : 0 ≤ a) (hb0 : 0 ≤ b)
    {r : Row} (hr : r ∈ db.instances .cin ri) (hsub : ∀ q ∈ db', q ∈ db)
    (hk : db'.keys .cin = (db.keys .cin).filter fun k => k.ri ≠ r.ri) :
    Evicted d nodes db ri a b cni cbs db' (cInt (cni - 1)) (cInt (cbs - r.size)) ∧
      db'.count .cin ri = db.count .cin ri - 1 := by
  obtain ⟨hr, ht, hpi⟩ := Db.mem_instances.mp hr
  have hmem := Db.key_mem hr ht
  have hperm := Ledger.perm_cons_filter hb.nodupRi hmem
  have hpi' : r.key.pi = some ri := hpi
  have hcount : db.count .cin ri = db'.count .cin ri + 1 := by
    unfold Db.count
    rw [Ledger.count_perm hperm, Ledger.count_cons, if_pos hpi', hk]
    rfl
  have htotal : db.total .cin ri = db'.total .cin ri + r.size := by
    unfold Db.total
    rw [Ledger.total_perm hperm, Ledger.total_cons, if_pos hpi', hk]
    rfl
  have hsz : 0 ≤ r.size := hb.size_nonneg hmem
  have hbooks := hb.dropKey hmem hpi'
  have hc0 : 0 ≤ db'.count .cin ri := Ledger.count_nonneg
  have ht0 : 0 ≤ db'.total .cin ri := by
    unfold Db.total
    rw [hk]
    exact hbooks.total_nonneg ri
  have h1 := h.cni_eq
  have h2 := h.cbs_eq
  have h3 := h.cni_le
  have h4 := h.cbs_le
  have hcni : cInt (cni - 1) = cni - 1 := cInt_eq (by unfold intMin; omega) (by omega)
  have hcbs : cInt (cbs - r.size) = cbs - r.size := cInt_eq (by unfold intMin; omega) (by omega)
  rw [hcni, hcbs]
  refine ⟨⟨hsub, ?_, ⟨by omega, by omega, by omega, by omega⟩⟩, by omega⟩
  rw [show cni - (cni - 1) = 1 by omega, show cbs - (cbs - r.size) = r.size by omega, hk]
  exact hbooks

/-- A node of the list the eviction loop walks stands for an instance of the container. -/
structure ListNode (db : Db) (ri : CStr) (h : RTNode) : Prop where
  row : ∃ r ∈ db.instances .cin ri, h.ri = r.ri ∧ h.obj.get .cs = r.obj.get .cs
  hits : db.HitsOnly .cin h

/-- The loop of the eviction. -/
theorem evictLoop_spec {mni mbs : Int} (L : List RTNode) (hb : Books d nodes (db.keys .cin))
    (h : Ahead db ri a b cni cbs) (ha : 0 ≤ a) (hb0 : 0 ≤ b) (hL : ∀ x ∈ L, ListNode db ri x)
    (hnd : (L.map RTNode.ri).Nodup) (he : evictLoop mni mbs L db cni cbs = some (db', cni', cbs')) :
    Evicted d nodes db ri a b cni cbs db' cni' cbs' := by
  induction L generalizing db cni cbs d with
  | nil =>
    cases he
    exact Evicted.refl hb h
  | cons x L ih =>
    unfold evictLoop at he
    split at he
    · simp only [Option.bind_eq_bind, Option.bind_eq_some_iff] at he
      obtain ⟨cs, hcs, he⟩ := he
      obtain ⟨r, hr, hri, hrcs⟩ := (hL x List.mem_cons_self).row
      have hhits := (hL x List.mem_cons_self).hits
      obtain ⟨q, hq⟩ : ∃ q, x.ri = some q := by
        obtain ⟨hrm, hrt, -⟩ := Db.mem_instances.mp hr
        obtain ⟨q, -, -, hq, -⟩ := hb.proper _ (Db.key_mem hrm hrt)
        exact ⟨q, hri.trans hq⟩
      have hk := Db.keys_dbDeleteOnem2mResource hq hhits
      rw [hri] at hk
      have hsize : r.size = cs.valueint := by
        unfold Row.size
        rw [← hrcs, hcs]
        rfl
      obtain ⟨hone, -⟩ := evicted_one hb h ha hb0 hr (fun _ hm => Db.mem_dbDelete hm) hk
      rw [hsize] at hone
      rw [List.map_cons, List.nodup_cons] at hnd
      refine hone.trans (ih hone.books hone.ahead ?_ hnd.2 he)
      -- what is left of the list still stands for rows: its identifiers are not the removed one
      intro y hy
      obtain ⟨r', hr', hri', hcs'⟩ := (hL y (List.mem_cons_of_mem _ hy)).row
      obtain ⟨hm', ht', hpi'⟩ := Db.mem_instances.mp hr'
      have hne : r'.ri ≠ x.ri := by
        rw [← hri']
        intro hcontra
        exact hnd.1 (List.mem_map.mpr ⟨y, hy, hcontra⟩)
      refine ⟨⟨r', Db.mem_instances.mpr ⟨?_, ht', hpi'⟩, hri', hcs'⟩, ?_⟩
      · unfold Db.dbDeleteOnem2mResource
        rw [hq]
        refine List.mem_filter.mpr ⟨hm', ?_⟩
        simp only [Db.deleteMatches, Bool.not_eq_true', Bool.or_eq_false_iff, decide_eq_false_iff_not]
        refine ⟨?_, fun hc => hne (hc.trans hq.symm)⟩
        by_contra hl
        exact hne (hhits _ (Db.key_mem hm' ht') (by simpa [Row.key] using hl))
      · intro k hk
        obtain ⟨q', hq', ht'', rfl⟩ := Db.mem_keys.mp hk
        exact (hL y (List.mem_cons_of_mem _ hy)).hits _ (Db.key_mem (Db.mem_dbDelete hq') ht'')
    · cases he
      exact Evicted.refl hb h

/-- The list the loop walks. -/
theorem listNodes_ok (hc : CleanRows db ri) : ∀ x ∈ db.dbGetCinRtnodeList ri, ListNode db ri x := by
  intro x hx
  obtain ⟨r, hr, hx⟩ := List.mem_filterMap.mp hx
  obtain ⟨-, -, -, huri, -, -, -, hattr, -⟩ := createRtnode_some hx
  have hget : ∀ k ∉ rewritten, x.obj.get k = r.obj.get k := by
    intro k hk
    rw [hattr k hk]
    apply get_load
    rintro rfl
    exact hk (by decide)
  have hri : x.ri = r.ri := by
    unfold RTNode.ri Row.ri Obj.str
    rw [hget .ri (by decide)]
  refine ⟨⟨r, hr, hri, hget .cs (by decide)⟩, ?_⟩
  intro k hk hl
  rw [hri]
  have huri' : x.uri = r.uri := huri
  rw [huri'] at hl
  obtain ⟨hrm, hrt, hrp⟩ := Db.mem_instances.mp hr
  exact hc _ (Db.key_mem hrm hrt) hrp k hk hl

theorem listNodes_nodup (hb : Books d nodes (db.keys .cin)) :
    ((db.dbGetCinRtnodeList ri).map RTNode.ri).Nodup := by
  have hinst : ((db.instances .cin ri).map Row.ri).Nodup := by
    have h1 : (db.instances .cin ri).map Row.ri =
        (((db.keys .cin).filter fun k => k.pi = some ri).map Key.ri) := by
      rw [Db.keys_filter_pi, List.map_map]
      rfl
    rw [h1]
    exact hb.nodupRi.sublist (List.filter_sublist.map _)
  refine hinst.sublist ?_
  unfold Db.dbGetCinRtnodeList
  induction db.instances .cin ri with
  | nil => exact List.Sublist.slnil
  | cons r l ih =>
    rw [List.filterMap_cons]
    split
    · exact ih.cons _
    · rename_i x hx
      have hri : x.ri = r.ri := by
        unfold RTNode.ri Row.ri Obj.str
        rw [(createRtnode_some hx).2.2.2.2.2.2.2.1 .ri (by decide), get_load (by decide)]
      rw [List.map_cons, List.map_cons, hri]
      exact ih.cons_cons _

/-- The single removal, where the container has an instance to remove. -/
theorem evictOne_spec {mni : Int} (hb : Books d nodes (db.keys .cin)) (h : Ahead db ri a b cni cbs) (ha : 0 ≤ a)
    (hb0 : 0 ≤ b) (hne : cni = mni + 1 → 0 < db.count .cin ri) :
    Evicted d nodes db ri a b cni cbs (evictOne ri mni db cni cbs).1 (evictOne ri mni db cni cbs).2.1
      (evictOne ri mni db cni cbs).2.2 := by
  unfold evictOne
  split
  · rename_i hm
    have hpos := hne hm
    unfold Db.dbDeleteOneCinMni
    rcases hf : firstMin (rowLt .lt) (db.instances .cin ri) with _ | r
    · rw [Db.count_eq, firstMin_eq_none hf] at hpos
      simp at hpos
    · have hr := firstMin_mem hf
      refine (evicted_one hb h ha hb0 hr (fun _ hq => List.mem_of_mem_filter hq) ?_).1
      exact Db.keys_filter_ri fun q _ _ => by simp
  · exact Evicted.refl hb h

theorem CleanRows.mono (h : CleanRows db ri) (hs : ∀ k ∈ db'.keys .cin, k ∈ db.keys .cin) : CleanRows db' ri :=
  fun k hk hp k' hk' hl => h k (hs k hk) hp k' (hs k' hk') hl

theorem keys_subset (hs : ∀ r ∈ db', r ∈ db) : ∀ k ∈ db'.keys .cin, k ∈ db.keys .cin := by
  intro k hk
  obtain ⟨r, hr, ht, rfl⟩ := Db.mem_keys.mp hk
  exact Db.key_mem (hs r hr) ht

theorem Ahead.keys (h : Ahead db ri a b cni cbs) (hk : db'.keys .cin = db.keys .cin) :
    Ahead db' ri a b cni cbs := by
  obtain ⟨h1, h2, h3, h4⟩ := h
  unfold Db.count at h1
  unfold Db.total at h2
  exact ⟨by unfold Db.count; rw [hk]; exact h1, by unfold Db.total; rw [hk]; exact h2, h3, h4⟩

/-- The counters and the rows `delete_cin_under_cnt_mni_mbs` leaves. -/
structure EvictedTo (d : Pending) (nodes : List RTNode) (db : Db) (ri : CStr) (a b cni cbs : Int) (o o' : Obj)
    (db' : Db) : Prop where
  plain : (∀ r ∈ db, PlainRow r) → ∀ r ∈ db', PlainRow r
  keys : ∀ k ∈ db'.keys .cin, k ∈ db.keys .cin
  attrs : ∀ k ∉ [Attr.cni, .cbs, .st], o'.get k = o.get k
  result : ∃ cni' cbs', o'.get .cni = some (.int cni') ∧ o'.get .cbs = some (.int cbs') ∧
    Ahead db' ri a b cni' cbs' ∧ Books (d.bump ri (cni - cni') (cbs - cbs')) nodes (db'.keys .cin)

theorem plain_dbUpdate {o : Obj} (h : ∀ r ∈ db, PlainRow r) : ∀ r ∈ db.dbUpdateResource o ri, PlainRow r := by
  intro r hr
  unfold Db.dbUpdateResource at hr
  obtain ⟨q, hq, rfl⟩ := List.mem_map.mp hr
  obtain ⟨h1, h2, h3⟩ := h q hq
  split
  · exact ⟨h1, h2, by show Assoc.get _ _ = _; simp⟩
  · exact ⟨h1, h2, h3⟩

/-- The rows and counters before the container is written back. -/
theorem evictRows_spec {mni mbs : Int} {x : Db × Int × Int} (hb : Books d nodes (db.keys .cin))
    (h : Ahead db ri a b cni cbs) (ha : 0 ≤ a) (hb0 : 0 ≤ b) (hclean : CleanRows db ri)
    (hne : cni = mni + 1 → 0 < db.count .cin ri)
    (he : evictRows ri mni mbs db cni cbs = some x) :
    Evicted d nodes db ri a b cni cbs x.1 x.2.1 x.2.2 := by
  have hone := evictOne_spec hb h ha hb0 hne
  unfold evictRows at he
  dsimp only at he
  split at he
  · have hclean' := hclean.mono (keys_subset hone.sub)
    exact hone.trans (evictLoop_spec _ hone.books hone.ahead ha hb0 (listNodes_ok hclean')
      (listNodes_nodup hone.books) he)
  · cases he
    exact hone

theorem deleteCinUnderCntMniMbs_spec {o o' : Obj} (hb : Books d nodes (db.keys .cin))
    (hapart : ∀ k ∈ db.keys .cin, k.ri ≠ some ri) (hri : o.get .ri = some (.str ri))
    (hcni : o.get .cni = some (.int cni)) (hcbs : o.get .cbs = some (.int cbs)) (h : Ahead db ri a b cni cbs)
    (ha : 0 ≤ a) (hb0 : 0 ≤ b) (hclean : CleanRows db ri)
    (hne : cni = limit o .mni defaultMaxNrInstances + 1 → 0 < db.count .cin ri)
    (he : deleteCinUnderCntMniMbs o db = some (o', db')) :
    EvictedTo d nodes db ri a b cni cbs o o' db' := by
  have h1 := h.cni_eq
  have h2 := h.cbs_eq
  have h3 := h.cni_le
  have h4 := h.cbs_le
  have hc0 : 0 ≤ db.count .cin ri := Ledger.count_nonneg
  have ht0 : 0 ≤ db.total .cin ri := hb.total_nonneg ri
  have hvi : (Json.int cni).valueint = cni := Json.valueint_int (by unfold intMin; omega) h3
  have hvb : (Json.int cbs).valueint = cbs := Json.valueint_int (by unfold intMin; omega) h4
  unfold deleteCinUnderCntMniMbs at he
  simp only [hcni, hcbs, Option.bind_eq_bind, Option.bind_some, hvi, hvb] at he
  split at he
  · -- within both limits: nothing happens
    cases he
    refine ⟨fun hp => hp, fun _ hk => hk, fun _ _ => rfl, cni, cbs, hcni, hcbs, h, ?_⟩
    rw [Int.sub_self, Int.sub_self, Pending.bump_zero]
    exact hb
  · have hstr : o.str .ri = some ri := by
      unfold Obj.str
      rw [hri]
      rfl
    rw [hstr, Option.bind_some] at he
    obtain ⟨x, hx, he⟩ := Option.bind_eq_some_iff.mp he
    have hev := evictRows_spec hb h ha hb0 hclean hne hx
    obtain ⟨st, hst, he⟩ := Option.bind_eq_some_iff.mp he
    simp only [Option.pure_def, Option.some.injEq, Prod.mk.injEq] at he
    obtain ⟨rfl, rfl⟩ := he
    have hkeys := keys_subset hev.sub
    have hsame := Db.keys_dbUpdateResource_of_apart (o := ((o.set .cni ((Json.int cni).assignInt x.2.1)).set .cbs
      ((Json.int cbs).assignInt x.2.2)).set .st (st.setIntValue (cInt (st.valueint + 1))))
      (fun k hk => hapart k (hkeys k hk))
    refine ⟨?_, ?_, ?_, x.2.1, x.2.2, ?_, ?_, hev.ahead.keys hsame, ?_⟩
    · exact fun hp => plain_dbUpdate fun r hr => hp r (hev.sub r hr)
    · rw [hsame]; exact hkeys
    · intro k hk
      simp only [List.mem_cons, List.not_mem_nil, or_false, not_or] at hk
      show Assoc.get _ _ = _
      rw [Assoc.get_set_ne (Ne.symm hk.2.2), Assoc.get_set_ne (Ne.symm hk.2.1), Assoc.get_set_ne (Ne.symm hk.1)]
    · show Assoc.get _ _ = _
      rw [Assoc.get_set_ne (by decide), Assoc.get_set_ne (by decide), Assoc.get_set_self hcni,
        Json.assignInt_int (by unfold intMin; omega) h3]
    · show Assoc.get _ _ = _
      have hcbs' : Assoc.get (Obj.set o .cni ((Json.int cni).assignInt x.2.1)) .cbs = some (.int cbs) := by
        rw [Assoc.get_set_ne (by decide)]
        exact hcbs
      rw [Assoc.get_set_ne (by decide), Assoc.get_set_self hcbs',
        Json.assignInt_int (by unfold intMin; omega) h4]
    · rw [hsame]; exact hev.books

end

end TinyIoT
