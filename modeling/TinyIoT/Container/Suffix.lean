/-
What is left of a container's instances: `create_cin` and `update_cnt` are to keep the longest suffix of the
stored instances that is within `mni` and `mbs`. The loop of `delete_cin_under_cnt_mni_mbs` takes the oldest
instances until the rest is within the limits, and what is left is that suffix when no DELETE statement it
sends meets an instance of the rest.
-/
import TinyIoT.Container.Handlers
import TinyIoT.Resource.Denials
import TinyIoT.Server.Boot
import TinyIoT.Lib.Trim

namespace TinyIoT

open Trim

/-! ## The rows of the eviction -/

/-- The content size of the instances. -/
def contentBytes (l : List Row) : Int := (l.map Row.size).sum

theorem contentBytes_cons (r : Row) (l : List Row) : contentBytes (r :: l) = r.size + contentBytes l := List.sum_cons

theorem contentBytes_append (l l' : List Row) : contentBytes (l ++ l') = contentBytes l + contentBytes l' := by
  unfold contentBytes
  rw [List.map_append, List.sum_append]

theorem contentBytes_nonneg {l : List Row} (h : ∀ r ∈ l, 0 ≤ r.size) : 0 ≤ contentBytes l := by
  refine List.sum_nonneg fun x hx => ?_
  obtain ⟨r, hr, rfl⟩ := List.mem_map.mp hx
  exact h r hr

theorem bytes_of_suffix {l k : List Row} (hk : k <:+ l) (h : ∀ r ∈ l, 0 ≤ r.size) : 0 ≤ contentBytes k :=
  contentBytes_nonneg fun r hr => h r (hk.subset hr)

/-- The instances are within the limits together with `a` more of `b` bytes. -/
def Within (mni mbs a b : Int) (l : List Row) : Prop := l.length + a ≤ mni ∧ contentBytes l + b ≤ mbs

instance (mni mbs a b : Int) : DecidablePred (Within mni mbs a b) := fun l =>
  inferInstanceAs (Decidable (l.length + a ≤ mni ∧ contentBytes l + b ≤ mbs))

/-- The DELETE statement for `x` meets `r`. -/
def Row.hits (x r : Row) : Bool := x.ri.any fun ri => Db.deleteMatches x.uri ri r

/-- The oldest instance is the only one with the lowest `lt` (which of several is taken the query leaves open), and no
other has its identifier. -/
def OldestFirst : List Row → Prop
  | [] => True
  | r :: l => ∀ q ∈ l, rowLt .lt r q = true ∧ q.ri ≠ r.ri

instance : DecidablePred OldestFirst
  | [] => isTrue trivial
  | _ :: l => inferInstanceAs (Decidable (∀ q ∈ l, _))

/-- Sums of content sizes that the counters of a container can hold. -/
structure Held (a b : Int) (l : List Row) : Prop where
  sizes : ∀ r ∈ l, 0 ≤ r.size
  count : l.length + a ≤ intMax
  total : contentBytes l + b ≤ intMax
  least : 0 ≤ a ∧ intMin ≤ b

section

variable {mni mbs a b : Int} {db db' : Db} {ri : CStr} {r : Row} {l : List Row}

theorem Held.tail (h : Held a b (r :: l)) : Held a b l := by
  have hr := h.sizes r List.mem_cons_self
  have hc := h.count
  have ht := h.total
  rw [List.length_cons] at hc
  rw [contentBytes_cons] at ht
  exact ⟨fun q hq => h.sizes q (List.mem_cons_of_mem r hq), by omega, by omega, h.least⟩

/-- The counters of one instance less. -/
theorem Held.drop (h : Held a b (r :: l)) :
    cInt (((r :: l).length : Int) + a - 1) = l.length + a ∧
      cInt (contentBytes (r :: l) + b - r.size) = contentBytes l + b := by
  have hc := h.tail.count
  have ht := h.tail.total
  have hn := contentBytes_nonneg h.tail.sizes
  obtain ⟨ha, hb⟩ := h.least
  rw [List.length_cons, contentBytes_cons]
  refine ⟨?_, ?_⟩
  · rw [show ((l.length + 1 : Nat) : Int) + a - 1 = l.length + a by omega]
    exact cInt_eq (by unfold intMin; omega) hc
  · rw [show r.size + contentBytes l + b - r.size = contentBytes l + b by omega]
    exact cInt_eq (by omega) ht

/-- The node the loop has for an instance. -/
theorem node_of_row {x : RTNode} (h : createRtnode 0 r.load .cin = some x) :
    x.ri = r.ri ∧ x.uri = r.uri ∧ x.obj.get .cs = r.obj.get .cs := by
  obtain ⟨-, -, -, huri, -, -, -, hattr, -⟩ := createRtnode_some h
  have hget : ∀ k ∉ rewritten, k ≠ .uri → x.obj.get k = r.obj.get k :=
    fun k hk hu => (hattr k hk).trans (get_load hu)
  exact ⟨Obj.str_congr (hget .ri (by decide) (by decide)), huri, hget .cs (by decide) (by decide)⟩

theorem dbDelete_of_row {x : RTNode} (h : createRtnode 0 r.load .cin = some x) :
    db.dbDeleteOnem2mResource x = db.filter fun q => !r.hits q := by
  obtain ⟨hri, huri, -⟩ := node_of_row h
  unfold Db.dbDeleteOnem2mResource Row.hits
  rw [hri, huri]
  cases r.ri with
  | none => exact (List.filter_eq_self.mpr fun _ _ => rfl).symm
  | some q => rfl

theorem exists_node (h : r.obj.str .rn ≠ none) : ∃ x, createRtnode 0 r.load .cin = some x := by
  obtain ⟨rn, hrn⟩ := Option.ne_none_iff_exists'.mp h
  unfold createRtnode
  have hstr : (boolify (boolify (boolify ((r.load.del .uri).del .memberOf) .rr) .mtv) .mdd).str .rn = some rn := by
    rw [← hrn]
    exact Obj.str_congr ((get_rewritten (by decide)).trans (get_load (by decide)))
  simp only [hstr, Option.bind_eq_bind, Option.bind_some, Option.pure_def]
  exact ⟨_, rfl⟩

/-- The loop sends a DELETE statement for each instance that leaves. -/
theorem evictLoop_rows {cni' cbs' : Int} (hmni : 0 ≤ mni) (hmbs : 0 ≤ mbs) (hl : Held a b l)
    (hrn : ∀ r ∈ l, r.obj.str .rn ≠ none)
    (he : evictLoop mni mbs (l.filterMap fun r => createRtnode 0 r.load .cin) db (l.length + a) (contentBytes l + b) =
      some (db', cni', cbs')) :
    db' = db.filter (fun q => (shed (Within mni mbs a b) l).all fun r => !r.hits q) ∧
      cni' = (trim (Within mni mbs a b) l).length + a ∧ cbs' = contentBytes (trim (Within mni mbs a b) l) + b := by
  induction l generalizing db with
  | nil =>
    cases he
    exact ⟨(List.filter_eq_self.mpr fun _ _ => rfl).symm, rfl, rfl⟩
  | cons r l ih =>
    obtain ⟨x, hx⟩ := exists_node (hrn r List.mem_cons_self)
    rw [List.filterMap_cons, hx] at he
    unfold evictLoop at he
    by_cases hw : Within mni mbs a b (r :: l)
    · have hstop : ¬ ((0 ≤ mni ∧ mni < ((r :: l).length : Int) + a) ∨ (0 ≤ mbs ∧ mbs < contentBytes (r :: l) + b)) := by
        unfold Within at hw
        omega
      rw [if_neg hstop] at he
      cases he
      rw [trim_of hw, shed_of hw]
      exact ⟨(List.filter_eq_self.mpr fun _ _ => rfl).symm, rfl, rfl⟩
    · have hgo : (0 ≤ mni ∧ mni < ((r :: l).length : Int) + a) ∨ (0 ≤ mbs ∧ mbs < contentBytes (r :: l) + b) := by
        unfold Within at hw
        omega
      rw [if_pos hgo] at he
      simp only [Option.bind_eq_bind, Option.bind_eq_some_iff] at he
      obtain ⟨cs, hcs, he⟩ := he
      have hsize : r.size = cs.valueint := by
        unfold Row.size
        rw [← (node_of_row hx).2.2, hcs]
        rfl
      rw [← hsize, hl.drop.1, hl.drop.2, dbDelete_of_row hx] at he
      obtain ⟨hdb, hcni, hcbs⟩ := ih hl.tail (fun q hq => hrn q (List.mem_cons_of_mem r hq)) he
      rw [trim_cons_of_not hw, shed_cons_of_not hw]
      refine ⟨?_, hcni, hcbs⟩
      rw [hdb, List.filter_filter]
      apply List.filter_congr
      intro q _
      rw [List.all_cons, Bool.and_comm]

/-- The instances a DELETE statement of the loop is sent for: the first removal takes the oldest by its
identifier alone. -/
def swept (mni mbs a b : Int) (l : List Row) : List Row :=
  if l.length + a = mni + 1 then (shed (Within mni mbs a b) l).tail else shed (Within mni mbs a b) l

/-- No DELETE statement of the loop meets an instance that is to stay. -/
def SparesRest (mni mbs a b : Int) (l : List Row) : Prop :=
  ∀ x ∈ swept mni mbs a b l, ∀ r ∈ trim (Within mni mbs a b) l, x.hits r = false

instance (mni mbs a b : Int) : DecidablePred (SparesRest mni mbs a b) := fun l =>
  inferInstanceAs (Decidable (∀ x ∈ swept mni mbs a b l, ∀ r ∈ trim (Within mni mbs a b) l, _))

/-- The instances that stay and are not met by a statement for another. -/
def rest (mni mbs a b : Int) (l : List Row) : List Row :=
  (trim (Within mni mbs a b) l).filter fun q => (swept mni mbs a b l).all fun r => !r.hits q

theorem rest_eq_trim_iff : rest mni mbs a b l = trim (Within mni mbs a b) l ↔ SparesRest mni mbs a b l := by
  unfold rest SparesRest
  rw [List.filter_eq_self]
  simp only [List.all_eq_true, Bool.not_eq_true']
  exact ⟨fun h x hx r hr => h r hr x hx, fun h r hr x hx => h x hx r hr⟩

theorem hits_self (h : r.ri ≠ none) : r.hits r = true := by
  obtain ⟨ri, hri⟩ := Option.ne_none_iff_exists'.mp h
  unfold Row.hits Db.deleteMatches
  rw [hri]
  simp

/-- What leaves is met by its own statement. -/
theorem filter_shed {p : List Row → Prop} [DecidablePred p] (h : ∀ r ∈ l, r.ri ≠ none) :
    l.filter (fun q => (shed p l).all fun r => !r.hits q) =
      (trim p l).filter fun q => (shed p l).all fun r => !r.hits q := by
  conv_lhs => rw [← shed_append_trim (p := p) l]
  rw [List.filter_append, shed_append_trim]
  rw [List.filter_eq_nil_iff.mpr, List.nil_append]
  intro q hq hall
  have hmem : q ∈ l := (shed_append_trim (p := p) l) ▸ List.mem_append_left _ hq
  have := List.all_eq_true.mp hall q hq
  rw [hits_self (h q hmem)] at this
  cases this

theorem instances_filter (f : Row → Bool) : Db.instances (db.filter f) .cin ri = (db.instances .cin ri).filter f := by
  unfold Db.instances
  rw [List.filter_filter, List.filter_filter]
  apply List.filter_congr
  intro q _
  rw [Bool.and_comm]

/-- The first of the smallest is the first, where none is smaller. -/
theorem firstMin_oldest (h : OldestFirst (r :: l)) : firstMin (rowLt .lt) (r :: l) = some r := by
  unfold firstMin
  cases hf : firstMin (rowLt .lt) l with
  | none => rfl
  | some q =>
    dsimp only
    rw [if_neg (by rw [rowLt_asymm (h q (firstMin_mem hf)).1]; decide)]

/-- The removals of `delete_cin_under_cnt_mni_mbs`. -/
theorem evictRows_rows {cni' cbs' : Int} (hmni : 0 ≤ mni) (hmbs : 0 ≤ mbs) (hl : Held a b l)
    (hdb : db.instances .cin ri = l) (hrn : ∀ r ∈ l, r.obj.str .rn ≠ none) (hri : ∀ r ∈ l, r.ri ≠ none)
    (hne : l.length + a = mni + 1 → l ≠ [] ∧ OldestFirst l)
    (he : evictRows ri mni mbs db (l.length + a) (contentBytes l + b) = some (db', cni', cbs')) :
    db'.instances .cin ri = rest mni mbs a b l ∧ cni' = (trim (Within mni mbs a b) l).length + a ∧
      cbs' = contentBytes (trim (Within mni mbs a b) l) + b ∧ ∀ r ∈ db', r ∈ db := by
  -- what the loop does, wherever it starts
  have hloop : ∀ {db₁ : Db} {l₁ : List Row}, Held a b l₁ → db₁.instances .cin ri = l₁ → (∀ r ∈ l₁, r ∈ l) →
      (if mni < (l₁.length : Int) + a ∨ mbs < contentBytes l₁ + b then
        evictLoop mni mbs (db₁.dbGetCinRtnodeList ri) db₁ (l₁.length + a) (contentBytes l₁ + b)
        else some (db₁, (l₁.length : Int) + a, contentBytes l₁ + b)) = some (db', cni', cbs') →
      db' = db₁.filter (fun q => (shed (Within mni mbs a b) l₁).all fun r => !r.hits q) ∧
        cni' = (trim (Within mni mbs a b) l₁).length + a ∧
        cbs' = contentBytes (trim (Within mni mbs a b) l₁) + b := by
    intro db₁ l₁ hl₁ hdb₁ hsub he
    by_cases hw : Within mni mbs a b l₁
    · rw [if_neg (by unfold Within at hw; omega)] at he
      cases he
      rw [trim_of hw, shed_of hw]
      exact ⟨(List.filter_eq_self.mpr fun _ _ => rfl).symm, rfl, rfl⟩
    · rw [if_pos (by unfold Within at hw; omega)] at he
      unfold Db.dbGetCinRtnodeList at he
      rw [hdb₁] at he
      exact evictLoop_rows hmni hmbs hl₁ (fun r hr => hrn r (hsub r hr)) he
  unfold evictRows evictOne at he
  by_cases hone : (l.length : Int) + a = mni + 1
  · rw [if_pos hone] at he
    obtain ⟨hnil, hold⟩ := hne hone
    obtain ⟨r, t, rfl⟩ := List.exists_cons_of_ne_nil hnil
    have hnot : ¬ Within mni mbs a b (r :: t) := by
      unfold Within
      omega
    have hfirst : db.dbDeleteOneCinMni ri = (db.filter fun q => q.ri ≠ r.ri, r.size) := by
      unfold Db.dbDeleteOneCinMni
      rw [hdb, firstMin_oldest hold]
      rfl
    simp only [hfirst, hl.drop.1, hl.drop.2] at he
    have hdb₁ : Db.instances (db.filter fun q => q.ri ≠ r.ri) .cin ri = t := by
      rw [instances_filter, hdb, List.filter_cons_of_neg (by simp), List.filter_eq_self]
      intro q hq
      simpa using (hold q hq).2
    obtain ⟨rfl, hcni, hcbs⟩ := hloop hl.tail hdb₁ (fun q hq => List.mem_cons_of_mem r hq) he
    refine ⟨?_, ?_, ?_, fun q hq => List.mem_of_mem_filter (List.mem_of_mem_filter hq)⟩
    · rw [instances_filter, hdb₁, filter_shed fun q hq => hri q (List.mem_cons_of_mem r hq)]
      unfold rest swept
      rw [if_pos hone, trim_cons_of_not hnot, shed_cons_of_not hnot]
      rfl
    · rw [trim_cons_of_not hnot]
      exact hcni
    · rw [trim_cons_of_not hnot]
      exact hcbs
  · rw [if_neg hone] at he
    obtain ⟨rfl, hcni, hcbs⟩ := hloop hl hdb (fun q hq => hq) he
    refine ⟨?_, hcni, hcbs, fun q hq => List.mem_of_mem_filter hq⟩
    rw [instances_filter, hdb, filter_shed hri]
    unfold rest swept
    rw [if_neg hone]

/-- Writing a container back leaves its instances alone, when none has its identifier. -/
theorem instances_dbUpdateResource {o : Obj} {q : CStr} (h : ∀ r ∈ db, r.ty = .cin → r.ri ≠ some q) (pi : CStr) :
    (db.dbUpdateResource o q).instances .cin pi = db.instances .cin pi ∧
      ∀ r ∈ db.dbUpdateResource o q, r.ty = .cin → r.ri ≠ some q := by
  induction db with
  | nil => exact ⟨rfl, fun _ hr => absurd hr List.not_mem_nil⟩
  | cons r db ih =>
    obtain ⟨ihi, iha⟩ := ih fun x hx => h x (List.mem_cons_of_mem r hx)
    unfold Db.dbUpdateResource Db.instances at ihi ⊢
    unfold Db.dbUpdateResource at iha
    rw [List.map_cons]
    by_cases hr : r.ri = some q
    · have hty : r.ty ≠ .cin := fun ht => h r List.mem_cons_self ht hr
      rw [if_pos hr]
      refine ⟨?_, fun x hx ht => ?_⟩
      · rw [List.filter_cons_of_neg (by simp [hty]), List.filter_cons_of_neg (by simp [hty]), ihi]
      · rcases List.mem_cons.mp hx with rfl | hx
        · exact absurd ht hty
        · exact iha x hx ht
    · rw [if_neg hr]
      refine ⟨?_, fun x hx ht => ?_⟩
      · rw [List.filter_cons, List.filter_cons, ihi]
      · rcases List.mem_cons.mp hx with rfl | hx
        · exact hr
        · exact iha x hx ht

/-- What `delete_cin_under_cnt_mni_mbs` leaves of the container and its instances. -/
theorem deleteCinUnder_rows {o o' : Obj} (hstr : o.str .ri = some ri) (hcni : o.get .cni = some (.int (l.length + a)))
    (hcbs : o.get .cbs = some (.int (contentBytes l + b))) (hl : Held a b l) (hdb : db.instances .cin ri = l)
    (hrn : ∀ r ∈ l, r.obj.str .rn ≠ none) (hri : ∀ r ∈ l, r.ri ≠ none)
    (hapart : ∀ r ∈ db, r.ty = .cin → r.ri ≠ some ri) (hlimits : limit o .mni defaultMaxNrInstances = mni ∧
      limit o .mbs defaultMaxByteSize = mbs) (hmni : 0 ≤ mni) (hmbs : 0 ≤ mbs)
    (hne : l.length + a = mni + 1 → l ≠ [] ∧ OldestFirst l) (he : deleteCinUnderCntMniMbs o db = some (o', db')) :
    db'.instances .cin ri = rest mni mbs a b l ∧
      o'.get .cni = some (.int ((trim (Within mni mbs a b) l).length + a)) ∧
      o'.get .cbs = some (.int (contentBytes (trim (Within mni mbs a b) l) + b)) ∧
      (∀ k ∉ [Attr.cni, .cbs, .st], o'.get k = o.get k) ∧ ∀ r ∈ db', r.ty = .cin → r.ri ≠ some ri := by
  have hn := contentBytes_nonneg hl.sizes
  obtain ⟨ha, hb⟩ := hl.least
  have hvi : intMin ≤ (l.length : Int) + a := by unfold intMin; omega
  have hvb : intMin ≤ contentBytes l + b := by omega
  unfold deleteCinUnderCntMniMbs at he
  simp only [hcni, hcbs, hlimits.1, hlimits.2, hstr, Option.bind_eq_bind, Option.bind_some,
    Json.valueint_int hvi hl.count, Json.valueint_int hvb hl.total] at he
  by_cases hw : (l.length : Int) + a ≤ mni ∧ contentBytes l + b ≤ mbs
  · rw [if_pos hw] at he
    cases he
    replace hw : Within mni mbs a b l := hw
    have hrest : rest mni mbs a b l = l := by
      unfold rest swept
      rw [if_neg (by unfold Within at hw; omega), trim_of hw, shed_of hw]
      exact List.filter_eq_self.mpr fun _ _ => rfl
    rw [hrest, trim_of hw]
    exact ⟨hdb, hcni, hcbs, fun _ _ => rfl, hapart⟩
  · rw [if_neg hw] at he
    obtain ⟨⟨db₁, cni', cbs'⟩, hx, he⟩ := Option.bind_eq_some_iff.mp he
    obtain ⟨hinst, rfl, rfl, hsub⟩ := evictRows_rows hmni hmbs hl hdb hrn hri hne hx
    obtain ⟨st, -, he⟩ := Option.bind_eq_some_iff.mp he
    simp only [Option.pure_def, Option.some.injEq, Prod.mk.injEq] at he
    obtain ⟨rfl, rfl⟩ := he
    have hwrite := fun o : Obj => @instances_dbUpdateResource db₁ o ri (fun r hr => hapart r (hsub r hr)) ri
    refine ⟨(hwrite _).1.trans hinst, ?_, ?_, fun k hk => ?_, (hwrite _).2⟩
    · show Assoc.get _ _ = _
      rw [Assoc.get_set_ne (by decide), Assoc.get_set_ne (by decide), Assoc.get_set_self hcni,
        Json.assignInt_int hvi hl.count]
    · have hcbs' : Assoc.get (Obj.set o .cni ((Json.int (l.length + a)).assignInt
          ((trim (Within mni mbs a b) l).length + a))) .cbs = some (.int (contentBytes l + b)) := by
        rw [Assoc.get_set_ne (by decide)]
        exact hcbs
      show Assoc.get _ _ = _
      rw [Assoc.get_set_ne (by decide), Assoc.get_set_self hcbs', Json.assignInt_int hvb hl.total]
    · simp only [List.mem_cons, List.not_mem_nil, or_false, not_or] at hk
      show Assoc.get _ _ = _
      rw [Assoc.get_set_ne (Ne.symm hk.2.2), Assoc.get_set_ne (Ne.symm hk.2.1), Assoc.get_set_ne (Ne.symm hk.1)]

end

/-! ## The handlers -/

/-- The container `c` in the tree, with the instances `l` and counters that match them. -/
structure Stocked (s : Server) (c : RTNode) (ri : CStr) (l : List Row) : Prop where
  ids : s.NodupIds
  below : ∀ n ∈ s.tree.nodes, n.id < s.nextId
  node : c ∈ s.tree.nodes
  key : c.obj.get .ri = some (.str ri)
  key_ne : ri ≠ []
  rows : s.db.instances .cin ri = l
  cni : c.obj.get .cni = some (.int l.length)
  cbs : c.obj.get .cbs = some (.int (contentBytes l))
  sizes : ∀ r ∈ l, 0 ≤ r.size
  range : l.length < intMax ∧ contentBytes l ≤ intMax
  named : ∀ r ∈ l, r.ri ≠ none ∧ r.obj.str .rn ≠ none
  apart : ∀ r ∈ s.db, r.ty = .cin → r.ri ≠ some ri

/-- No instance in memory is older than `mia`. -/
def NoneExpired (env : Env) (s : Server) (c : RTNode) : Prop :=
  ∀ mia ∈ c.obj.get .mia, 0 < mia.valueint → ∀ n ∈ (s.children c.id).roots, n.ty = .cin →
    tooOld env mia.valueint n = false

instance (env : Env) (s : Server) (c : RTNode) : Decidable (NoneExpired env s c) :=
  inferInstanceAs (Decidable (∀ mia ∈ c.obj.get .mia, _ → ∀ n ∈ (s.children c.id).roots, _ → _))

/-- The content size of the instance a body describes. -/
def newSize (pc : Obj) : Int :=
  (((pc.get .cs).or ((pc.str .con).map fun con => .int con.length)).map Json.valueint).getD 0

section

variable {env : Env} {req : Req} {s s' : Server} {c : RTNode} {ri : CStr} {l : List Row} {resp : Resp}

theorem expireByMia_none (h : NoneExpired env s c) (he : s.expireByMia env (.inTree c.id) c = some s') : s' = s := by
  unfold Server.expireByMia at he
  split at he
  · cases he
    rfl
  · rename_i mia hmia
    split at he
    · rename_i hpos
      simp only [Option.bind_eq_bind] at he
      obtain ⟨expired, hexp, he⟩ := Option.bind_eq_some_iff.mp he
      unfold expiredCins at hexp
      dsimp only at hexp
      split at hexp
      · have hnone : (((s.children c.id).roots.filter fun n => n.ty = .cin).filter (tooOld env mia.valueint)) = [] := by
          rw [List.filter_eq_nil_iff]
          intro n hn
          obtain ⟨hn, hty⟩ := List.mem_filter.mp hn
          rw [h mia hmia hpos n hn (by simpa using hty)]
          decide
        rw [hnone] at hexp
        cases hexp
        cases he
        rfl
      · cases hexp
    · cases he
      rfl

/-- The limits are read from attributes the counters leave alone. -/
theorem limit_congr {o o' : Obj} {k : Attr} (h : o'.get k = o.get k) (d : Int) : limit o' k d = limit o k d := by
  unfold limit
  rw [h]

theorem node?_setObj_self {o : Obj} (hids : s.NodupIds) (hc : c ∈ s.tree.nodes) :
    (s.setObj c.id o).node? c.id = some { c with obj := o } :=
  Server.node?_eq (n := { c with obj := o }) (hids.modify (f := fun n => { n with obj := o }) (fun _ _ _ => rfl) rfl)
    (Server.mem_setObj hc o)

/-- `update_cnt_cin` with sign 1, where no instance is too old. -/
theorem addCnt_steps {cin : Obj} (h : Stocked s c ri l) (hold : NoneExpired env s c)
    (he : s.addCnt env (.inTree c.id) cin = some s') :
    ∃ o o' db, bumpCnt c.obj cin 1 = some o ∧ deleteCinUnderCntMniMbs o s.db = some (o', db) ∧
      s' = { s with db := db }.persist (.inTree c.id) o' := by
  have hnode : (Ptr.inTree c.id).deref s = some c := Server.node?_eq h.ids h.node
  unfold Server.addCnt at he
  simp only [hnode, Option.bind_eq_bind, Option.bind_some, Option.bind_eq_some_iff, Option.pure_def,
    Option.some.injEq] at he
  obtain ⟨s₁, h₁, c₁, hd, o, ho, ⟨o', db⟩, hev, rfl⟩ := he
  obtain rfl := expireByMia_none hold h₁
  obtain rfl := Option.some.inj (hnode.symm.trans hd)
  exact ⟨o, o', db, ho, hev, rfl⟩

/-- The counters and the rows `update_cnt_cin` leaves, for a limit of one instance at least. -/
theorem addCnt_rows {cin : Obj} {j : Json} {mni mbs : Int} (h : Stocked s c ri l) (hold : NoneExpired env s c)
    (hlimits : limit c.obj .mni defaultMaxNrInstances = mni ∧ limit c.obj .mbs defaultMaxByteSize = mbs)
    (hmni : 1 ≤ mni) (hmbs : 0 ≤ mbs) (hne : (l.length : Int) = mni → OldestFirst l) (hcs : cin.get .cs = some j)
    (hroom : contentBytes l + j.valueint ≤ intMax) (he : s.addCnt env (.inTree c.id) cin = some s') :
    ∃ c', s'.node? c.id = some c' ∧ s'.db.instances .cin ri = rest mni mbs 1 j.valueint l ∧
      c'.obj.get .cni = some (.int ((trim (Within mni mbs 1 j.valueint) l).length + 1)) ∧
      c'.obj.get .cbs = some (.int (contentBytes (trim (Within mni mbs 1 j.valueint) l) + j.valueint)) := by
  obtain ⟨o, o', db, ho, hev, rfl⟩ := addCnt_steps h hold he
  have hn := contentBytes_nonneg h.sizes
  obtain ⟨hcount, htotal⟩ := h.range
  have hj := Json.valueint_ge j
  obtain ⟨h1, h2, h3⟩ := CntInv.bumpCnt_counts h.cni h.cbs hcs ho ⟨by unfold intMin; omega, by omega⟩
    ⟨by unfold intMin; omega, htotal⟩ ⟨by unfold intMin; omega, by omega⟩ ⟨by omega, by omega⟩
  rw [Int.one_mul] at h2
  have hkey : o.str .ri = some ri := Obj.str_of_get ((h3 .ri (by decide)).trans h.key)
  obtain ⟨hinst, hcni, hcbs, hattr, hapart⟩ := deleteCinUnder_rows hkey h1 h2 ⟨h.sizes, by omega, hroom, by omega⟩ h.rows
    (fun r hr => (h.named r hr).2) (fun r hr => (h.named r hr).1) h.apart
    ⟨(limit_congr (h3 .mni (by decide)) _).trans hlimits.1, (limit_congr (h3 .mbs (by decide)) _).trans hlimits.2⟩
    (by omega) hmbs (fun hl => ⟨by rintro rfl; simp at hl; omega, hne (by omega)⟩) hev
  refine ⟨{ c with obj := o' }, ?_, ?_, hcni, hcbs⟩
  · show Forest.find? _ (Server.tree _) = _
    rw [Server.persist_tree]
    exact node?_setObj_self h.ids h.node
  · have hkey' : o'.str .ri = some ri := (Obj.str_congr (hattr .ri (by decide))).trans hkey
    have hdb : ({ s with db := db }.persist (.inTree c.id) o').db = db.dbUpdateResource o' ri := by
      unfold Server.persist
      rw [hkey']
      rfl
    rw [hdb, (instances_dbUpdateResource hapart ri).1, hinst]

/-- The end of `create_cin` leaves the container's own node alone. -/
theorem node?_cacheLatest {p x : RTNode} (hids : s.NodupIds) (hc : c ∈ s.tree.nodes) (hp : p.id = c.id) (hty : x.ty = .cin)
    (hx : ∀ a ∈ s.tree.nodes, a.id ≠ x.id) : (s.cacheLatest p x).node? c.id = some c := by
  cases hla : (s.children p.id).roots.find? (fun m => m.rn = "la".toList) with
  | none =>
    rw [cacheLatest_new hty hx hla]
    have hperm := Server.nodes_graft (x := { x with uri := p.uri ++ '/' :: x.rn, rn := "la".toList }) hids hc hp.symm
    refine Server.node?_eq ?_ (hperm.symm.subset (List.mem_cons_of_mem _ hc))
    unfold Server.NodupIds
    rw [(hperm.map (·.id)).nodup_iff, List.map_cons, List.nodup_cons]
    refine ⟨fun hm => ?_, hids⟩
    obtain ⟨a, ha, hid⟩ := List.mem_map.mp hm
    exact hx a ha hid
  | some la =>
    obtain ⟨k, hk⟩ := Forest.mem_nodes_iff.mp hc
    have hmem : la ∈ k.roots := by
      have := List.mem_of_find?_eq_some hla
      rwa [hp, Server.children_eq hids hk] at this
    -- a child is another node than its parent
    have hne : c.id ≠ la.id := by
      have hsub := ((Forest.nodes_of_cell hk).map RTNode.id).nodup hids
      rw [List.map_cons, List.nodup_cons] at hsub
      exact fun he => hsub.1 (List.mem_map.mpr ⟨la, (Forest.roots_sublist_nodes k).subset hmem, he.symm⟩)
    unfold Server.cacheLatest
    rw [hla]
    dsimp only
    unfold Server.setObj
    rw [Server.node?_modifyNode (by intro n; rfl), Server.node?_eq hids hc, Option.map_some, if_neg hne]

/-- The content size `create_cin` stores. -/
theorem cs_buildCin {parent cin o : Obj} {st : Int} (h : buildCin env req parent st cin = .ok o) :
    o.get .cs = (cin.get .cs).or ((cin.str .con).map fun con => .int con.length) := by
  unfold buildCin at h
  obtain ⟨⟨⟩, hv, h⟩ := bind_ok h
  obtain ⟨o₁, hcr, h⟩ := bind_ok h
  cases h
  rw [get_announceAt (by decide), get_assignCreator hcr (by decide), get_validateAa (by decide)]
  refine (Assoc.get_add_ne (by decide)).trans ?_
  unfold addContentSize
  split
  · rename_i con hcon
    rw [hcon]
    exact (Assoc.get_add _ _ _ _).trans (by simp [Obj.get])
  · rename_i hcon
    rw [hcon]
    exact (Option.or_none ..).symm

/-- What a column gives back of a content size. -/
theorem size_column (j : Json) : ((column j).map Json.valueint).getD 0 = j.valueint := by
  cases j with
  | null => rfl
  | bool b => cases b <;> decide
  | num v =>
    show (Json.int (Json.num v).valueint).valueint = _
    exact Json.valueint_int (Json.valueint_ge _) (Json.valueint_le _)
  | str x => cases x <;> rfl
  | arr l => rfl
  | obj m => rfl

theorem Stocked.riCount (h : Stocked s c ri l) (n : Nat) : Stocked { s with riCount := n } c ri l :=
  ⟨h.ids, h.below, h.node, h.key, h.key_ne, h.rows, h.cni, h.cbs, h.sizes, h.range, h.named, h.apart⟩

/-- A creation that is answered with success: the container makes room, the new row comes after all others, and the node
becomes the latest instance. -/
theorem createCin_stores (h : Stocked s c ri l) (hplace : req.pc.get .pi = none ∧ req.pc.get .ty = none)
    (he : s.createCin env req c = some (s', resp)) (hr : resp.rsc = .created) :
    ∃ (x : RTNode) (j : Json) (n : Nat) (s₁ : Server) (r : Row), x.id = s.nextId ∧ x.ty = .cin ∧ x.obj.get .cs = some j ∧
      j.valueint = newSize req.pc ∧ Server.addCnt env { s with riCount := n } (.inTree c.id) x.obj = some s₁ ∧
      s' = Server.cacheLatest { s₁ with db := s₁.db ++ [r], nextId := s₁.nextId + 1 } c x ∧ r.ty = .cin ∧ r.pi = some ri ∧
      r.size = newSize req.pc ∧ (req.pc.get .ct = none → env.now ≠ [] → r.obj.str .ct = some env.now) := by
  unfold Server.createCin at he
  simp only [Option.bind_eq_bind] at he
  obtain ⟨⟨cin, n⟩, hgen, he⟩ := Option.bind_eq_some_iff.mp he
  obtain ⟨pi, hpi, hget⟩ := addGeneralAttribute_some hgen
  obtain rfl : pi = ri := Option.some.inj (hpi.symm.trans (Obj.str_of_get h.key))
  obtain ⟨st, -, he⟩ := Option.bind_eq_some_iff.mp he
  split at he
  · rename_i r₁ ho
    cases he
    have hno := denies_buildCin _ _ _ _ _ _ ho
    simp [Resp.accepted, hr] at hno
  · rename_i o ho
    obtain ⟨hattr, -⟩ := buildCin_ok ho
    obtain ⟨x, hx, he⟩ := Option.bind_eq_some_iff.mp he
    obtain ⟨s₁, hadd, he⟩ := Option.bind_eq_some_iff.mp he
    obtain ⟨hid, hty, -, -, -, -, -, hxattr, -⟩ := createRtnode_some hx
    obtain ⟨j, hj⟩ := CntInv.addCnt_cs hadd
    have hcon : cin.str .con = req.pc.str .con := Obj.str_congr (by rw [hget]; exact Option.or_none)
    have hsize : j.valueint = newSize req.pc := by
      have hcs := (hxattr .cs (by decide)).symm.trans hj
      rw [cs_buildCin ho, hcon, hget, show generalAttr env .cin _ pi .cs = none from rfl, Option.or_none] at hcs
      unfold newSize
      rw [hcs]
      rfl
    have hout : ∀ k ∈ [Attr.pi, .ty, .ct], k ∉ rewritten ∧ k ∉ [Attr.aa, .cr, .st, .cs, .at] := by decide
    have hgiven : ∀ k ∈ [Attr.pi, .ty, .ct], req.pc.get k = none →
        x.obj.get k = generalAttr env .cin (resourceIdentifier .cin env.now s.riCount).1 pi k := by
      intro k hk hnone
      rw [hxattr k (hout k hk).1, hattr k (hout k hk).2, hget, hnone, Option.none_or]
    rw [(Db.dbStoreResource_code (t := .cin) (by decide) (hgiven .ty (by decide) hplace.2)).mpr rfl] at he
    cases he
    refine ⟨x, j, n, s₁, _, hid, hty, hj, hsize, hadd, rfl, rfl, ?_, ?_, fun hct hnow => ?_⟩
    · refine Obj.str_of_get ((Db.get_stored x.obj (k := .pi) (by decide)).trans ?_)
      rw [hgiven .pi (by decide) hplace.1]
      exact column_str h.key_ne
    · unfold Row.size
      rw [Db.get_stored x.obj (by decide), hj, ← hsize]
      exact size_column j
    · refine Obj.str_of_get ((Db.get_stored x.obj (k := .ct) (by decide)).trans ?_)
      rw [hgiven .ct (by decide) hct]
      exact column_str hnow

/-- The same where no instance in memory is too old: the container's own node is the one the counting leaves. -/
theorem createCin_steps (h : Stocked s c ri l) (hplace : req.pc.get .pi = none ∧ req.pc.get .ty = none)
    (hold : NoneExpired env s c) (he : s.createCin env req c = some (s', resp)) (hr : resp.rsc = .created) :
    ∃ (cin : Obj) (j : Json) (n : Nat) (s₁ : Server) (r : Row), cin.get .cs = some j ∧ j.valueint = newSize req.pc ∧
      Server.addCnt env { s with riCount := n } (.inTree c.id) cin = some s₁ ∧ s'.db = s₁.db ++ [r] ∧ r.ty = .cin ∧
      r.pi = some ri ∧ r.size = newSize req.pc ∧ s'.node? c.id = s₁.node? c.id := by
  obtain ⟨x, j, n, s₁, r, hid, hxty, hj, hsize, hadd, rfl, hty, hpi, hrsize, -⟩ := createCin_stores h hplace he hr
  refine ⟨x.obj, j, n, s₁, r, hj, hsize, hadd, cacheLatest_db _ _ hxty, hty, hpi, hrsize, ?_⟩
  -- counting in keeps the tree, up to the container's object
  obtain ⟨o₁, o', db, -, -, hs₁⟩ := addCnt_steps (h.riCount n) hold hadd
  have htree : s₁.tree = (s.setObj c.id o').tree := by
    rw [hs₁]
    exact Server.persist_tree _ c.id o'
  have hids : s₁.NodupIds := h.ids.modify (f := fun m => { m with obj := o' }) (fun _ _ _ => rfl) htree
  have hmem : { c with obj := o' } ∈ s₁.tree.nodes := by
    rw [htree]
    exact Server.mem_setObj h.node o'
  have hnew : ∀ a ∈ s₁.tree.nodes, a.id ≠ x.id := by
    intro a ha
    rw [htree, Server.setObj, Server.nodes_modifyNode] at ha
    obtain ⟨m, hm, rfl⟩ := List.mem_map.mp ha
    have hlt := h.below m hm
    rw [hid]
    split <;> exact Nat.ne_of_lt hlt
  refine (node?_cacheLatest (c := { c with obj := o' }) (by exact hids) (by exact hmem) rfl hxty
    (by exact hnew)).trans ?_
  exact (Server.node?_eq (n := { c with obj := o' }) hids hmem).symm

end

/-! ## The longest suffix -/

/-- Stored is the longest suffix of the instances of before that is within the limits together with the new one, and
after it the new one; the counters match what is stored. -/
def KeepsLongest (mni mbs : Int) (old new after : List Row) (o : Obj) : Prop :=
  ∃ k, Longest (fun m => Within mni mbs 0 0 (m ++ new)) old k ∧ after = k ++ new ∧
    o.get .cni = some (.int after.length) ∧ o.get .cbs = some (.int (contentBytes after))

/-- After a creation in a container, whose instances were `l`. The new row is the last one. -/
def CreationKeeps (s' : Server) (c : RTNode) (ri : CStr) (l : List Row) : Prop :=
  ∃ r c', s'.db.getLast? = some r ∧ s'.node? c.id = some c' ∧
    KeepsLongest (limit c.obj .mni defaultMaxNrInstances) (limit c.obj .mbs defaultMaxByteSize) l
      (if 1 ≤ limit c.obj .mni defaultMaxNrInstances then [r] else []) (s'.db.instances .cin ri) c'.obj

/-- After an update of a container, whose instances were `l`. -/
def UpdateKeeps (s' : Server) (c : RTNode) (ri : CStr) (l : List Row) : Prop :=
  ∃ c', s'.node? c.id = some c' ∧
    KeepsLongest (limit c'.obj .mni defaultMaxNrInstances) (limit c'.obj .mbs defaultMaxByteSize) l []
      (s'.db.instances .cin ri) c'.obj

/-- A creation that leaves the instance in the container it is sent to and meets no instance that is too old. Where the
container is exactly full, the oldest instance is the only one with the lowest `lt`. -/
structure PlainCreation (env : Env) (req : Req) (s : Server) (c : RTNode) (l : List Row) : Prop where
  place : req.pc.get .pi = none ∧ req.pc.get .ty = none
  fresh : NoneExpired env s c
  mni : 0 ≤ limit c.obj .mni defaultMaxNrInstances
  mbs : 0 ≤ limit c.obj .mbs defaultMaxByteSize
  room : contentBytes l + newSize req.pc ≤ intMax
  oldest : (l.length : Int) = limit c.obj .mni defaultMaxNrInstances → OldestFirst l

/-- A limit of a container once `update_resource` has applied a body to it. -/
def newLimit (c body : Obj) (k : Attr) (d : Int) : Int := limit (c.updateResource body) k d

/-- An update that leaves the counters to the server. Where the container is one above the new limit, the oldest instance
is the only one with the lowest `lt`. -/
structure PlainUpdate (req : Req) (c : RTNode) (l : List Row) : Prop where
  counters : req.pc.get .cni = none ∧ req.pc.get .cbs = none
  mni : 0 ≤ newLimit c.obj req.pc .mni defaultMaxNrInstances
  mbs : 0 ≤ newLimit c.obj req.pc .mbs defaultMaxByteSize
  oldest : (l.length : Int) = newLimit c.obj req.pc .mni defaultMaxNrInstances + 1 → OldestFirst l

section

variable {mni mbs a b : Int} {l new after : List Row} {o : Obj} {r : Row}

theorem within_append (m : List Row) : Within mni mbs 0 0 (m ++ new) ↔ Within mni mbs new.length (contentBytes new) m := by
  unfold Within
  rw [List.length_append, contentBytes_append]
  push_cast
  rw [Int.add_zero, Int.add_zero]

/-- What the eviction leaves, with the new instances after it, is the longest suffix exactly when an empty rest is within
the limits and no statement meets an instance that is to stay. -/
theorem keepsLongest_iff (hsizes : ∀ r ∈ l, 0 ≤ r.size)
    (hafter : after = rest mni mbs new.length (contentBytes new) l ++ new)
    (hcni : o.get .cni = some (.int ((trim (Within mni mbs new.length (contentBytes new)) l).length + new.length)))
    (hcbs : o.get .cbs =
      some (.int (contentBytes (trim (Within mni mbs new.length (contentBytes new)) l) + contentBytes new))) :
    KeepsLongest mni mbs l new after o ↔ (new.length ≤ mni ∧ contentBytes new ≤ mbs) ∧
      SparesRest mni mbs new.length (contentBytes new) l := by
  have hp : (fun m => Within mni mbs 0 0 (m ++ new)) = Within mni mbs new.length (contentBytes new) :=
    funext fun m => propext (within_append m)
  unfold KeepsLongest
  rw [hp, ← rest_eq_trim_iff]
  constructor
  · rintro ⟨k, hk, he, -⟩
    have hlen := hk.holds.1
    have hbytes := hk.holds.2
    have hn := bytes_of_suffix hk.suffix hsizes
    rw [hafter] at he
    exact ⟨⟨by omega, by omega⟩, (List.append_cancel_right he).trans hk.eq_trim⟩
  · rintro ⟨⟨hlen, hbytes⟩, he⟩
    have hnil : Within mni mbs new.length (contentBytes new) [] := by
      have hzero : contentBytes [] = 0 := rfl
      unfold Within
      rw [hzero, List.length_nil]
      exact ⟨by omega, by omega⟩
    rw [he] at hafter
    refine ⟨_, longest_trim (List.nil_suffix) hnil, hafter, ?_, ?_⟩
    · rw [hcni, hafter, List.length_append]
      push_cast
      rfl
    · rw [hcbs, hafter, contentBytes_append]

end

section

variable {env : Env} {req : Req} {s s' : Server} {c : RTNode} {ri : CStr} {l : List Row} {resp : Resp}

theorem creationKeeps_iff (h : Stocked s c ri l) (hp : PlainCreation env req s c l)
    (he : s.createCin env req c = some (s', resp)) (hr : resp.rsc = .created) :
    CreationKeeps s' c ri l ↔ 1 ≤ limit c.obj .mni defaultMaxNrInstances ∧
      newSize req.pc ≤ limit c.obj .mbs defaultMaxByteSize ∧
      SparesRest (limit c.obj .mni defaultMaxNrInstances) (limit c.obj .mbs defaultMaxByteSize) 1 (newSize req.pc) l := by
  obtain ⟨cin, j, n, s₁, r, hcs, hj, hadd, hdb, hty, hpi, hsize, hnode⟩ := createCin_steps h hp.place hp.fresh he hr
  have hinst : s'.db.instances .cin ri = s₁.db.instances .cin ri ++ [r] := by
    unfold Db.instances
    rw [hdb, List.filter_append, List.filter_cons_of_pos (by simp [hty, hpi])]
    rfl
  have hlast : s'.db.getLast? = some r := by rw [hdb, List.getLast?_concat]
  have hbytes : contentBytes [r] = newSize req.pc := by
    rw [contentBytes_cons, hsize]
    exact Int.add_zero _
  by_cases hmni : 1 ≤ limit c.obj .mni defaultMaxNrInstances
  · rw [← hj] at hbytes ⊢
    obtain ⟨c', hc', hrest, hcni, hcbs⟩ := addCnt_rows (h.riCount n) hp.fresh ⟨rfl, rfl⟩ hmni hp.mbs hp.oldest hcs
      (by rw [hj]; exact hp.room) hadd
    have hone : (([r] : List Row).length : Int) = 1 := rfl
    have hiff := @keepsLongest_iff (limit c.obj .mni defaultMaxNrInstances) (limit c.obj .mbs defaultMaxByteSize) l [r]
      (s'.db.instances .cin ri) c'.obj h.sizes
    rw [hone, hbytes] at hiff
    replace hiff := hiff (by rw [hinst, hrest]) hcni hcbs
    constructor
    · rintro ⟨q, c'', hq, hc'', hk⟩
      obtain rfl := Option.some.inj (hlast.symm.trans hq)
      obtain rfl := Option.some.inj (hc'.symm.trans (hnode.symm.trans hc''))
      rw [if_pos hmni] at hk
      obtain ⟨⟨-, h1⟩, h2⟩ := hiff.mp hk
      exact ⟨hmni, h1, h2⟩
    · rintro ⟨-, h1, h2⟩
      refine ⟨r, c', hlast, hnode.trans hc', ?_⟩
      rw [if_pos hmni]
      exact hiff.mpr ⟨⟨hmni, h1⟩, h2⟩
  · -- a container for no instance still gets the new one
    refine iff_of_false ?_ fun hcond => hmni hcond.1
    rintro ⟨q, c', -, -, k, hk, he, -⟩
    rw [if_neg hmni] at hk he
    have hlen := hk.holds.1
    rw [hinst] at he
    have hle := congrArg List.length he
    simp only [List.length_append, List.length_cons, List.length_nil] at hle hlen
    omega

/-- An update is refused, with what its checks looked up, or the body is merged, the container cut down to its limits,
and both are written. -/
theorem updateCnt_steps {kept : Json → List Json} (hkey : c.obj.get .ri = some (.str ri))
    (he : s.updateCnt env kept req c = some (s', resp)) :
    (s.LooksUp env.now s' ∧ resp.rsc ≠ .updated ∧ (s.AcpiSettled env.now (req.pc.get .acpi) → s' = s)) ∨
    ∃ body db₀ obj db, (∀ k ∉ [Attr.aa, .st, .at, .lt], Assoc.entries body k = Assoc.entries req.pc k) ∧
      req.pc.get .ri = none ∧ (db₀ = s.db ∨ db₀ = s.db.dbUpdateResource [(.at, .null)] ri) ∧
      deleteCinUnderCntMniMbs (c.obj.updateResource body) db₀ = some (obj, db) ∧ ∃ ri', obj.str .ri = some ri' ∧
        s' = { { s with db := db }.setObj c.id obj with db := db.dbUpdateResource body ri' } := by
  unfold Server.updateCnt at he
  split at he
  · cases he
    exact .inl ⟨.refl, nofun, fun _ => rfl⟩
  · rename_i hkeys
    split at he
    · rename_i r hv
      cases he
      have hno := denies_validateCnt _ _ _ _ _ hv
      exact .inl ⟨Server.looksUp_afterChecks _ _, fun hr => by simp [Resp.accepted, hr] at hno,
        fun hset => Server.afterChecks_settled hset _⟩
    · simp only [Option.bind_eq_bind, Option.bind_eq_some_iff, Option.pure_def, Option.some.injEq] at he
      obtain ⟨st, -, ri₁, hri₁, ⟨obj, db⟩, hev, ri₂, hri₂, he⟩ := he
      obtain rfl : ri₁ = ri := Option.some.inj (hri₁.symm.trans (Obj.str_of_get hkey))
      cases he
      refine .inr ⟨_, _, obj, db, fun k hk => ?_, ?_, ?_, hev, ri₂, hri₂, rfl⟩
      · simp only [List.mem_cons, List.not_mem_nil, or_false, not_or] at hk
        refine (Assoc.entries_add_ne (Ne.symm hk.2.2.2)).trans ((entries_processAnncAtUpdate hk.2.2.1).trans ?_)
        exact (Assoc.entries_add_ne (Ne.symm hk.2.1)).trans (entries_validateAa hk.1)
      · simp only [cntInvalidKeys, List.any_cons, Bool.or_eq_true, not_or, Assoc.has] at hkeys
        simpa using hkeys.2.2.1
      · -- clearing `at` writes to the container's row
        split
        · exact .inr rfl
        · exact .inl rfl

theorem updateKeeps_iff {kept : Json → List Json} (h : Stocked s c ri l) (hp : PlainUpdate req c l)
    (he : s.updateCnt env kept req c = some (s', resp)) (hr : resp.rsc = .updated) :
    UpdateKeeps s' c ri l ↔ SparesRest (newLimit c.obj req.pc .mni defaultMaxNrInstances)
      (newLimit c.obj req.pc .mbs defaultMaxByteSize) 0 0 l := by
  rcases updateCnt_steps h.key he with ⟨-, hno, -⟩ | ⟨body, db₀, obj, db, hent, hkey, hclear, hev, ri₁, hri₁, hs'⟩
  · exact absurd hr hno
  have hdb : s'.db = db.dbUpdateResource body ri₁ := by rw [hs']
  have htree : s'.tree = (s.setObj c.id obj).tree := by
    rw [hs']
    rfl
  have hout : ∀ k ∈ [Attr.ri, .cni, .cbs, .mni, .mbs], k ∉ [Attr.aa, .st, .at, .lt] := by decide
  have hsame : ∀ k ∈ [Attr.ri, .cni, .cbs, .mni, .mbs], req.pc.get k = none →
      (c.obj.updateResource body).get k = c.obj.get k := fun k hk hnone =>
    Obj.get_updateResource_of_not_has ((Assoc.get_congr (hent k (hout k hk))).trans hnone)
  have hlimit : ∀ k ∈ [Attr.ri, .cni, .cbs, .mni, .mbs], ∀ d,
      limit (c.obj.updateResource body) k d = newLimit c.obj req.pc k d := fun k hk d =>
    limit_congr (Obj.get_updateResource_congr (hent k (hout k hk))) d
  have hrows : db₀.instances .cin ri = l ∧ ∀ r ∈ db₀, r.ty = .cin → r.ri ≠ some ri := by
    rcases hclear with rfl | rfl
    · exact ⟨h.rows, h.apart⟩
    · obtain ⟨h1, h2⟩ := instances_dbUpdateResource (o := [(.at, .null)]) h.apart ri
      exact ⟨h1.trans h.rows, h2⟩
  have hcni := (hsame .cni (by decide) hp.counters.1).trans h.cni
  have hcbs := (hsame .cbs (by decide) hp.counters.2).trans h.cbs
  have hmerged := (hsame .ri (by decide) hkey).trans h.key
  rw [← Int.add_zero (l.length : Int)] at hcni
  rw [← Int.add_zero (contentBytes l)] at hcbs
  obtain ⟨hcount, htotal⟩ := h.range
  obtain ⟨hinst, hcni', hcbs', hattr, hapart⟩ := deleteCinUnder_rows (Obj.str_of_get hmerged) hcni hcbs
    ⟨h.sizes, by omega, by omega, by decide⟩ hrows.1 (fun r hr => (h.named r hr).2) (fun r hr => (h.named r hr).1) hrows.2
    ⟨hlimit .mni (by decide) _, hlimit .mbs (by decide) _⟩ hp.mni hp.mbs
    (fun hl => ⟨by rintro rfl; have := hp.mni; simp at hl; omega, hp.oldest (by omega)⟩) hev
  obtain rfl : ri₁ = ri := Option.some.inj (hri₁.symm.trans (Obj.str_of_get ((hattr .ri (by decide)).trans hmerged)))
  have hmni := (limit_congr (hattr .mni (by decide)) defaultMaxNrInstances).trans (hlimit .mni (by decide) _)
  have hmbs := (limit_congr (hattr .mbs (by decide)) defaultMaxByteSize).trans (hlimit .mbs (by decide) _)
  have hstored : s'.db.instances .cin ri₁ = db.instances .cin ri₁ := by
    rw [hdb]
    exact (instances_dbUpdateResource hapart ri₁).1
  have hnode : s'.node? c.id = some { c with obj := obj } := by
    unfold Server.node?
    rw [htree]
    exact node?_setObj_self h.ids h.node
  have hiff := @keepsLongest_iff (newLimit c.obj req.pc .mni defaultMaxNrInstances)
    (newLimit c.obj req.pc .mbs defaultMaxByteSize) l [] (db.instances .cin ri₁) obj h.sizes
    (by rw [hinst]; exact (List.append_nil _).symm) hcni' hcbs'
  refine Iff.trans ?_ (hiff.trans (and_iff_right ⟨hp.mni, hp.mbs⟩))
  constructor
  · rintro ⟨c', hc', hk⟩
    obtain rfl := Option.some.inj (hnode.symm.trans hc')
    rwa [hmni, hmbs, hstored] at hk
  · intro hk
    refine ⟨{ c with obj := obj }, hnode, ?_⟩
    rwa [hmni, hmbs, hstored]

/-- What is stored after a creation and after an update is the longest suffix exactly when the container is for one
instance at least, the new one is within `mbs`, and no DELETE statement meets an instance that is to stay. -/
theorem longest_suffix_iff (h : Stocked s c ri l) :
    (∀ env req s' resp, PlainCreation env req s c l → s.createCin env req c = some (s', resp) → resp.rsc = .created →
      (CreationKeeps s' c ri l ↔ 1 ≤ limit c.obj .mni defaultMaxNrInstances ∧
        newSize req.pc ≤ limit c.obj .mbs defaultMaxByteSize ∧
        SparesRest (limit c.obj .mni defaultMaxNrInstances) (limit c.obj .mbs defaultMaxByteSize) 1 (newSize req.pc) l)) ∧
    ∀ env kept req s' resp, PlainUpdate req c l → s.updateCnt env kept req c = some (s', resp) → resp.rsc = .updated →
      (UpdateKeeps s' c ri l ↔ SparesRest (newLimit c.obj req.pc .mni defaultMaxNrInstances)
        (newLimit c.obj req.pc .mbs defaultMaxByteSize) 0 0 l) :=
  ⟨fun _ _ _ _ hp he hr => creationKeeps_iff h hp he hr, fun _ _ _ _ _ hp he hr => updateKeeps_iff h hp he hr⟩

end

/-! ## Two containers -/

/-- The node of a container for `mni` instances that has `cni` of them. -/
def boxNode (mni cni cbs : Int) : RTNode where
  id := 0
  ty := .cnt
  rn := "c".toList
  uri := "TinyIoT/c".toList
  obj := [(.rn, .str "c".toList), (.ri, .str "3-1".toList), (.pi, .str "id-in".toList), (.st, .int 0), (.cni, .int cni),
    (.cbs, .int cbs), (.mni, .int mni)]
  memberOf := []
  subs := []
  subCnt := 0

/-- The row of an instance of that container, with the time of its creation. -/
def boxRow (ri con lt : String) : Row where
  uri := "TinyIoT/c/".toList ++ ri.toList
  ty := .cin
  obj := [(.rn, .str ri.toList), (.ri, .str ri.toList), (.pi, .str "3-1".toList), (.lt, .str lt.toList),
    (.con, .str con.toList), (.cs, .int con.length)]

def boxServer (mni : Int) (rows : List Row) : Server where
  tree := .node (boxNode mni rows.length (contentBytes rows)) .nil .nil
  csrList := []
  db := rows
  nextId := 1
  riCount := 1

theorem stocked_box {mni : Int} {l : List Row}
    (hl : ∀ r ∈ l, r.ty = .cin ∧ r.pi = some "3-1".toList ∧ r.ri ≠ none ∧ r.obj.str .rn ≠ none ∧
      r.ri ≠ some "3-1".toList)
    (hsizes : ∀ r ∈ l, 0 ≤ r.size) (hrange : l.length < intMax ∧ contentBytes l ≤ intMax) :
    Stocked (boxServer mni l) (boxNode mni l.length (contentBytes l)) "3-1".toList l := by
  refine ⟨?_, ?_, List.mem_singleton.mpr rfl, rfl, by decide, ?_, rfl, rfl, hsizes, hrange, ?_, ?_⟩
  · exact List.nodup_singleton _
  · intro n hn
    rw [List.mem_singleton.mp hn]
    exact Nat.zero_lt_one
  · refine List.filter_eq_self.mpr fun r hr => ?_
    simp [(hl r hr).1, (hl r hr).2.1]
  · exact fun r hr => ⟨(hl r hr).2.2.1, (hl r hr).2.2.2.1⟩
  · exact fun r hr _ => (hl r hr).2.2.2.2

def newCin : Req := adminReq .create "TinyIoT/c" .cin [(.con, .str "de".toList)]

/-- Two instances, one a second older than the other. -/
def twoInstances : List Row := [boxRow "4-1" "abc" "20240101T000000", boxRow "4-2" "d" "20240101T000001"]

/-- A container for two instances gives up the older one. -/
theorem longest_suffix_iff_full : ∃ s' resp,
    (boxServer 2 twoInstances).createCin firstDay newCin (boxNode 2 2 4) = some (s', resp) ∧
    CreationKeeps s' (boxNode 2 2 4) "3-1".toList twoInstances := by
  have hrun : ((boxServer 2 twoInstances).createCin firstDay newCin (boxNode 2 2 4)).any
      (fun x => decide (x.2.rsc = .created)) = true := by decide +kernel
  obtain ⟨⟨s', resp⟩, he, hr⟩ := (Option.any_eq_true _ _).mp hrun
  have hs : Stocked (boxServer 2 twoInstances) (boxNode 2 2 4) "3-1".toList twoInstances := stocked_box (by decide) (by decide +kernel) (by decide +kernel)
  have hp : PlainCreation firstDay newCin (boxServer 2 twoInstances) (boxNode 2 2 4) twoInstances :=
    ⟨⟨rfl, rfl⟩, by decide +kernel, by decide +kernel, by decide +kernel, by decide +kernel, fun _ => by decide +kernel⟩
  exact ⟨s', resp, he, ((longest_suffix_iff hs).1 _ _ s' resp hp he (of_decide_eq_true hr)).mpr (by decide +kernel)⟩

/-- A container for no instance stores the new one and counts none. -/
theorem not_longest_suffix_mni_zero : ¬ ∀ s c ri l env req s' resp, Stocked s c ri l →
    0 ≤ limit c.obj .mni defaultMaxNrInstances → 0 ≤ limit c.obj .mbs defaultMaxByteSize →
    s.createCin env req c = some (s', resp) → resp.rsc = .created → CreationKeeps s' c ri l := by
  intro h
  have hrun : ((boxServer 0 []).createCin firstDay newCin (boxNode 0 0 0)).any
      (fun x => decide (x.2.rsc = .created ∧ (x.1.db.instances .cin "3-1".toList).length = 1)) = true := by decide +kernel
  obtain ⟨⟨s', resp⟩, he, hx⟩ := (Option.any_eq_true _ _).mp hrun
  obtain ⟨hr, hlen⟩ := of_decide_eq_true hx
  have hs : Stocked (boxServer 0 []) (boxNode 0 0 0) "3-1".toList [] := stocked_box (by decide) (by decide) (by decide)
  obtain ⟨q, c', -, -, k, hk, hafter, -⟩ := h _ _ _ _ _ _ _ _ hs (by decide +kernel) (by decide +kernel) he hr
  rw [List.suffix_nil.mp hk.suffix, if_neg (by decide +kernel)] at hafter
  rw [hafter] at hlen
  cases hlen

end TinyIoT
