/-
The count of missing points: `mdc` is the number of entries of `mdlt` and stays within `mdn`, in every run
of arrivals, visits of the monitoring thread, updates and deletions of instances, as long as no update
puts `mdn` below the points there are and no point is recorded while `mdn` is below one.
-/
import TinyIoT.Monitor.Cursors
import Mathlib.Data.Rat.Floor

namespace TinyIoT

/-! ## The count -/

/-- `mdc` counts the entries of `mdlt`, of which there are `mdn` at most. -/
structure Tallied (o : Obj) : Prop where
  mdc : (o.get .mdc).bind Json.number = some ((mdltOf o).length : ℚ)
  mdn : ∃ v, (o.get .mdn).bind Json.number = some v ∧ ((mdltOf o).length : ℚ) ≤ v

/-- The same, with one `mdlt` at most, so that deleting it leaves none. -/
structure TalliedOnce (o : Obj) : Prop where
  tallied : Tallied o
  once : (Assoc.entries o Attr.mdlt).length ≤ 1

/-- `mdn` is a number and is not below this one. -/
def mdnFrom (o : Obj) (n : ℚ) : Bool := ((o.get .mdn).bind Json.number).any (n ≤ ·)

theorem mdltOf_of_none {o : Obj} (h : o.get .mdlt = none) : mdltOf o = [] := by
  unfold mdltOf
  rw [h]

theorem valueint_le_number {v : ℚ} (h : 0 ≤ v) : ((Json.num v).valueint : ℚ) ≤ v := by
  have hfloor : v.num.tdiv v.den = ⌊v⌋ := by
    rw [Rat.floor_def', Int.tdiv_eq_ediv_of_nonneg (Rat.num_nonneg.mpr h)]
  have hle : (Json.num v).valueint ≤ ⌊v⌋ := by
    have h0 : 0 ≤ ⌊v⌋ := Int.floor_nonneg.mpr h
    show max intMin (min intMax (v.num.tdiv v.den)) ≤ ⌊v⌋
    rw [hfloor]
    unfold intMin
    omega
  exact (Int.cast_le.mpr hle).trans (Int.floor_le v)

theorem one_le_valueint {v : ℚ} (h : 1 ≤ v) : 1 ≤ (Json.num v).valueint := by
  have hfloor : v.num.tdiv v.den = ⌊v⌋ := by
    rw [Rat.floor_def', Int.tdiv_eq_ediv_of_nonneg (Rat.num_nonneg.mpr (zero_le_one.trans h))]
  have h1 : 1 ≤ ⌊v⌋ := Int.le_floor.mpr (by exact_mod_cast h)
  show 1 ≤ max intMin (min intMax (v.num.tdiv v.den))
  rw [hfloor]
  unfold intMin intMax
  omega

theorem length_trimTo {α : Type} {o : Obj} {v : ℚ} (hv : (o.get .mdn).bind Json.number = some v) (h : 1 ≤ v) (l : List α) :
    ((trimTo o l).length : ℚ) ≤ v := by
  obtain ⟨j, hj, hjv⟩ := Option.bind_eq_some_iff.mp hv
  cases j with
  | num w =>
    cases hjv
    have hnum : o.num .mdn = some (Json.num v).valueint := by
      unfold Obj.num
      rw [hj]
      rfl
    have h1 := one_le_valueint h
    have hlen : ((trimTo o l).length : Int) ≤ (Json.num v).valueint := by
      unfold trimTo
      rw [hnum, Option.getD_some, if_pos (by omega), List.length_drop]
      omega
    exact (by exact_mod_cast hlen : ((trimTo o l).length : ℚ) ≤ ((Json.num v).valueint : ℚ)).trans
      (valueint_le_number (zero_le_one.trans h))
  | _ => cases hjv

theorem entries_setOrAdd_ne {o : Obj} {k k' : Attr} {v : Json} (h : k ≠ k') :
    Assoc.entries (if o.has k then o.set k v else o.add k v) k' = Assoc.entries o k' := by
  split
  · exact Assoc.entries_set_ne h
  · exact Assoc.entries_add_ne h

theorem length_entries_setOrAdd {o : Obj} {k : Attr} (h : (Assoc.entries o k).length ≤ 1) (v : Json) :
    (Assoc.entries (if o.has k then o.set k v else o.add k v) k).length ≤ 1 := by
  split
  · rw [Assoc.length_entries_set]
    exact h
  · rename_i hn
    have hnil : Assoc.entries o k = [] := Assoc.entries_eq_nil (Assoc.has_eq_false.mp (by simpa using hn))
    have hadd : Assoc.entries (o.add k v) k = Assoc.entries o k ++ [(k, v)] := by simp [Assoc.entries, Assoc.add]
    rw [hadd, hnil]
    simp

namespace TalliedOnce

variable {o o' : Obj}

theorem of_entries (h : TalliedOnce o) (ho : ∀ k ∈ [Attr.mdc, .mdn, .mdlt], Assoc.entries o' k = Assoc.entries o k) :
    TalliedOnce o' := by
  obtain ⟨v, hv, hle⟩ := h.tallied.mdn
  have hget : ∀ k ∈ [Attr.mdc, .mdn, .mdlt], o'.get k = o.get k := fun k hk => Assoc.get_congr (ho k hk)
  have hmdlt : mdltOf o' = mdltOf o := mdltOf_congr (hget .mdlt (by decide))
  refine ⟨⟨?_, v, ?_, ?_⟩, ?_⟩
  · rw [hget .mdc (by decide), hmdlt]
    exact h.tallied.mdc
  · rw [hget .mdn (by decide)]
    exact hv
  · rw [hmdlt]
    exact hle
  · rw [ho .mdlt (by decide)]
    exact h.once

theorem congr (h : TalliedOnce o) (ho : SameMissing o o') : TalliedOnce o' := by
  have hin : ∀ k ∈ [Attr.mdc, .mdn, .mdlt], k ∈ missingAttrs := by decide
  exact h.of_entries fun k hk => ho k (hin k hk)

/-- A point is recorded while `mdn` is one or more. -/
theorem record (h : TalliedOnce o) (hmdn : mdnFrom o 1 = true) (time : CStr) : TalliedOnce (recordMissing o time) := by
  obtain ⟨v, hv, -⟩ := h.tallied.mdn
  have h1 : 1 ≤ v := by
    unfold mdnFrom at hmdn
    rw [hv] at hmdn
    simpa using hmdn
  have hlen := length_trimTo hv h1 (mdltOf o ++ [.str time])
  refine ⟨⟨?_, v, ?_, ?_⟩, ?_⟩
  · rw [mdltOf_recordMissing]
    unfold recordMissing
    rw [get_setOrAdd_self]
    rfl
  · rw [get_recordMissing_of_ne (by decide) (by decide)]
    exact hv
  · rw [mdltOf_recordMissing]
    exact hlen
  · unfold recordMissing
    rw [entries_setOrAdd_ne (by decide)]
    exact length_entries_setOrAdd h.once _

/-- The detection is restarted: nothing is missing. -/
theorem restart (h : TalliedOnce o) (now : CStr) :
    TalliedOnce (restartDetection now o) ∧ mdltOf (restartDetection now o) = [] := by
  obtain ⟨j, hj, hjn⟩ := Option.bind_eq_some_iff.mp h.tallied.mdc
  obtain ⟨v, hv, hle⟩ := h.tallied.mdn
  have hmdc : (restartDetection now o).get .mdc = some (.int 0) := by
    unfold restartDetection
    show Assoc.get (Assoc.set (Assoc.del _ _) _ _) _ = _
    rw [Assoc.get_set_ne (by decide), Assoc.get_del_ne (by decide), hj]
    cases j with
    | num w => exact Assoc.get_set_self hj
    | _ => cases hjn
  have hentries : Assoc.entries (restartDetection now o) Attr.mdlt = (Assoc.entries o Attr.mdlt).tail := by
    unfold restartDetection
    rw [Assoc.entries_set_ne (by decide), Assoc.entries_del_self, hj]
    dsimp only
    rw [Assoc.entries_set_ne (by decide)]
  have hnone : Assoc.entries (restartDetection now o) Attr.mdlt = [] := by
    rw [hentries, ← List.length_eq_zero_iff, List.length_tail]
    have := h.once
    omega
  have hempty : mdltOf (restartDetection now o) = [] := by
    refine mdltOf_of_none ?_
    show Assoc.get _ _ = none
    rw [Assoc.get_eq_head, hnone]
    rfl
  refine ⟨⟨⟨?_, v, ?_, ?_⟩, ?_⟩, hempty⟩
  · rw [hmdc, hempty]
    rfl
  · rw [get_restartDetection (by decide)]
    exact hv
  · rw [hempty]
    exact le_trans (by simp) hle
  · rw [hnone]
    simp

/-- An update whose every `mdn` has room for the points there are. -/
theorem update (h : TalliedOnce o) {now : CStr} {kept : Json → List Json} {pc : Obj} (hts : updatedTs now kept o pc = .ok o')
    (hpc : ∀ j, (Attr.mdn, j) ∈ pc → ∃ v, j.number = some v ∧ ((mdltOf o).length : ℚ) ≤ v) : TalliedOnce o' := by
  obtain ⟨hmdc, hmdlt, -, body, hb, hmem, rfl⟩ := updatedTs_cases hts
  -- the object the members of the body are applied to has no more points than before
  have hbase : ∀ base, TalliedOnce base → (mdltOf base).length ≤ (mdltOf o).length → TalliedOnce (base.updateResource body) := by
    intro base hbase hle
    have hlist : Assoc.entries (base.updateResource body) Attr.mdlt = Assoc.entries base Attr.mdlt :=
      Obj.entries_updateResource_of_not_has ((hb .mdlt (by decide)).trans hmdlt)
    have hsame : mdltOf (base.updateResource body) = mdltOf base := mdltOf_congr (Assoc.get_congr hlist)
    refine ⟨⟨?_, ?_⟩, by rw [hlist]; exact hbase.once⟩
    · rw [Obj.get_updateResource_of_not_has ((hb .mdc (by decide)).trans hmdc), hsame]
      exact hbase.tallied.mdc
    · rw [hsame]
      by_cases hhas : body.has .mdn = true
      · have hgiven : ∀ j, (Attr.mdn, j) ∈ body → ∃ v, j.number = some v ∧ ((mdltOf o).length : ℚ) ≤ v := fun j hj =>
          hpc j ((hmem _ hj).resolve_right (by simp))
        obtain ⟨j, hj, hget⟩ := Obj.get_updateResource_of_has base hhas (fun j hj => by
          obtain ⟨v, hv, -⟩ := hgiven j hj
          cases j <;> first | rfl | cases hv)
        obtain ⟨v, hv, hlen⟩ := hgiven j hj
        exact ⟨v, by rw [hget]; exact hv, le_trans (by exact_mod_cast hle) hlen⟩
      · rw [Obj.get_updateResource_of_not_has (Assoc.has_eq_false.mp (by simpa using hhas))]
        exact hbase.tallied.mdn
  split
  · obtain ⟨hr, hempty⟩ := h.restart now
    exact hbase _ hr (by rw [hempty]; exact Nat.zero_le _)
  · exact hbase o h le_rfl

end TalliedOnce

/-! ## Creation -/

/-- The body names each attribute that `create_ts` resets once at most. -/
def resetOnce (pc : Obj) : Bool := (Assoc.entries pc Attr.mdc).length ≤ 1 && (Assoc.entries pc Attr.mdlt).length ≤ 1

/-- A new time series has no missing points. -/
theorem tallied_buildTs {env : Env} {req : Req} {ts o : Obj} (h : buildTs env req ts = .ok o) {v : ℚ}
    (hv : ts.get .mdn = some (.num v)) (hpos : 0 < v) (honce : resetOnce ts = true) : TalliedOnce o := by
  simp only [resetOnce, Bool.and_eq_true, decide_eq_true_eq] at honce
  obtain ⟨ts', rfl, hent, hmdn⟩ := buildTs_reset h
  have hmdlt : Assoc.entries (announceAt env (resetTs ts')) Attr.mdlt = [] := by
    rw [entries_announceAt (by decide)]
    unfold resetTs
    rw [Assoc.entries_add_ne (by decide), Assoc.entries_add_ne (by decide), Assoc.entries_add_ne (by decide),
      Assoc.entries_del_self, Assoc.entries_del_ne (by decide), Assoc.entries_del_ne (by decide),
      Assoc.entries_del_ne (by decide), hent .mdlt (by decide), ← List.length_eq_zero_iff, List.length_tail]
    omega
  have hempty : mdltOf (announceAt env (resetTs ts')) = [] := by
    refine mdltOf_of_none ?_
    show Assoc.get _ _ = none
    rw [Assoc.get_eq_head, hmdlt]
    rfl
  have hmdc : Assoc.entries (((ts'.del .mdc).del .cni).del .cbs |>.del .mdlt) Attr.mdc = [] := by
    rw [Assoc.entries_del_ne (by decide), Assoc.entries_del_ne (by decide), Assoc.entries_del_ne (by decide),
      Assoc.entries_del_self, hent .mdc (by decide), ← List.length_eq_zero_iff, List.length_tail]
    omega
  refine ⟨⟨?_, v, ?_, ?_⟩, by rw [hmdlt]; simp⟩
  · have hzero : (announceAt env (resetTs ts')).get .mdc = some (.int 0) := by
      show Assoc.get _ _ = _
      rw [Assoc.get_eq_head, entries_announceAt (by decide)]
      unfold resetTs
      rw [Assoc.entries_add_ne (by decide), Assoc.entries_add_ne (by decide)]
      show ((Assoc.entries (Assoc.add _ Attr.mdc (Json.int 0)) Attr.mdc).head?.map (·.2)) = _
      rw [← Assoc.get_eq_head, Assoc.get_add, Assoc.get_eq_head, hmdc]
      rfl
    rw [hzero, hempty]
    rfl
  · have hkept : (announceAt env (resetTs ts')).get .mdn = some (.num v) := by
      rw [get_announceAt (by decide)]
      unfold resetTs
      show Assoc.get _ _ = _
      rw [Assoc.get_add_ne (by decide), Assoc.get_add_ne (by decide), Assoc.get_add_ne (by decide),
        Assoc.get_del_ne (by decide), Assoc.get_del_ne (by decide), Assoc.get_del_ne (by decide), Assoc.get_del_ne (by decide)]
      exact hmdn _ hv
    rw [hkept]
    rfl
  · rw [hempty]
    exact_mod_cast hpos.le

/-- The node at the new address, if there is one, has the object that was built. -/
theorem createTs_built {env : Env} {req : Req} {s s' : Server} {parent : RTNode} {resp : Resp} (hs : s.Sane)
    (hp : parent ∈ s.tree.nodes) (h : s.createTs env req parent = some (s', resp)) :
    s'.Sane ∧ ∀ n ∈ s'.tree.nodes, n.id = s.nextId → ∃ ts o : Obj, buildTs env req ts = .ok o ∧
      (∀ k ∉ [Attr.ty, .ct, .ri, .rn, .lt, .pi, .et], Assoc.entries ts k = Assoc.entries req.pc k) ∧
      ∃ x, createRtnode s.nextId o .ts = some x ∧ n.obj = x.obj := by
  -- where nothing is created there is no node at the new address
  have hnone : ∀ n : Nat, Server.Sane { s with riCount := n } ∧ ∀ m ∈ s.tree.nodes, m.id ≠ s.nextId := fun n =>
    ⟨hs.congr rfl le_rfl, fun m hm hmi => absurd (hs.below m hm) (by omega)⟩
  unfold Server.createTs at h
  split at h
  · cases h
    exact ⟨(hnone s.riCount).1, fun m hm hmi => absurd hmi ((hnone s.riCount).2 m hm)⟩
  · simp only [Option.bind_eq_bind, Option.bind_eq_some_iff] at h
    obtain ⟨⟨ts, n⟩, hgen, h⟩ := h
    dsimp only at h
    split at h
    · cases h
      exact ⟨(hnone n).1, fun m hm hmi => absurd hmi ((hnone n).2 m hm)⟩
    · rename_i o ho
      unfold Server.storeResource at h
      simp only [Option.bind_eq_bind, Option.bind_eq_some_iff] at h
      obtain ⟨rn, -, h⟩ := h
      split at h
      · cases h
        exact ⟨(hnone n).1, fun m hm hmi => absurd hmi ((hnone n).2 m hm)⟩
      · rename_i db hdb
        simp only [Option.bind_eq_some_iff, Option.pure_def, Option.some.injEq, Prod.mk.injEq] at h
        obtain ⟨x, hx, rfl, -⟩ := h
        obtain ⟨hid, hty, -⟩ := createRtnode_some hx
        obtain ⟨hsane, hmem⟩ := (hnone n).1.graft (x := x) hp rfl hid (by rw [hty]; decide) (by rw [hty]; decide) db
        refine ⟨hsane, fun m hm hmi => ?_⟩
        rcases hmem m hm with hm | rfl
        · exact absurd hmi ((hnone n).2 m hm)
        · exact ⟨ts, o, ho, fun k hk => entries_addGeneralAttribute hk hgen, x, hx, rfl⟩

theorem createTs_tallied {env : Env} {req : Req} {s s' : Server} {parent : RTNode} {resp : Resp} (hs : s.Sane)
    (hp : parent ∈ s.tree.nodes) (h : s.createTs env req parent = some (s', resp)) {v : ℚ}
    (hv : req.pc.get .mdn = some (.num v)) (hpos : 0 < v) (honce : resetOnce req.pc = true) :
    s'.Sane ∧ ∀ n ∈ s'.tree.nodes, n.id = s.nextId → TalliedOnce n.obj := by
  obtain ⟨hsane, hbuilt⟩ := createTs_built hs hp h
  refine ⟨hsane, fun n hn hi => ?_⟩
  obtain ⟨ts, o, ho, hent, x, hx, hobj⟩ := hbuilt n hn hi
  have htallied : TalliedOnce o := by
    refine tallied_buildTs ho ((Assoc.get_congr (hent .mdn (by decide))).trans hv) hpos ?_
    unfold resetOnce at honce ⊢
    rw [hent .mdc (by decide), hent .mdlt (by decide)]
    exact honce
  have hout : ∀ k ∈ [Attr.mdc, .mdn, .mdlt], k ∉ rewritten := by decide
  rw [hobj]
  exact htallied.of_entries fun k hk => entries_createRtnode hx (hout k hk)

namespace Detector

variable (fmt : TimeFormat) (i : Nat)

/-- The request created a time series at the address `i`, with `mdd` on and a positive `mdn`. -/
structure CreatedBy (d : Detector) (env : Env) (req : Req) (s : Server) (parent : RTNode) : Prop where
  sane : s.Sane
  mem : parent ∈ s.tree.nodes
  created : ∃ resp, s.createTs env req parent = some (d.server, resp)
  address : i = s.nextId
  mdd : (req.pc.get .mdd).any mddOn = true
  mdn : ∃ v, req.pc.get .mdn = some (.num v) ∧ 0 < v

def Created (d : Detector) : Prop := ∃ env req s parent, CreatedBy i d env req s parent

/-- The body named `mdc` and `mdlt` once at most. -/
def CreatedOnce (d : Detector) : Prop := ∃ env req s parent, CreatedBy i d env req s parent ∧ resetOnce req.pc = true

/-- A point is recorded only while `mdn` is one or more, and an update that is accepted gives `mdn` no value
below the points there are. -/
def roomy (d : Detector) : DetectorAct → Bool
  | .arrive env _ req =>
    ((d.server.node? i).bind (arrivalTsi (d.env fmt env) req d.server)).all fun a =>
      (a.missed (d.env fmt env)).isNone || mdnFrom a.ts 1
  | .tick clock =>
    (d.server.node? i).all fun t =>
      (t.ri.bind fun ri => tsMdTakeDue d.cursors ri clock (monitorPeriod t.obj)).isNone || mdnFrom t.obj 1
  | .update env kept req =>
    (d.server.node? i).all fun t => match updatedTs env.now kept t.obj req.pc with
      | .error _ => true
      | .ok _ => req.pc.all fun e => e.1 ≠ .mdn || e.2.number.any (((mdltOf t.obj).length : ℚ) ≤ ·)
  | .deleteTsi .. => true

def Happens (d d' : Detector) : Prop := ∃ a, d.step fmt i a = some d'

def RoomyStep (d d' : Detector) : Prop := ∃ a, d.roomy fmt i a = true ∧ d.step fmt i a = some d'

/-! ## Steps and runs -/

/-- The time series, where it is in the tree, counts its points. -/
structure Counting (d : Detector) : Prop where
  sane : d.server.Sane
  tallied : ∃ o, TalliedOnce o ∧ d.server.ShowsAt i o

variable {fmt i} {d d' : Detector}

theorem Counting.start (h : CreatedOnce i d) : Counting i d := by
  obtain ⟨env, req, s, parent, hc, honce⟩ := h
  obtain ⟨resp, hcreated⟩ := hc.created
  obtain ⟨v, hv, hpos⟩ := hc.mdn
  obtain ⟨hsane, htallied⟩ := createTs_tallied hc.sane hc.mem hcreated hv hpos honce
  rw [← hc.address] at htallied
  refine ⟨hsane, ?_⟩
  cases hn : d.server.node? i with
  | none =>
    refine ⟨[(.mdc, .int 0), (.mdn, .int 1)], ⟨⟨rfl, 1, rfl, ?_⟩, Nat.zero_le _⟩, fun n hn' hi => ?_⟩
    · exact_mod_cast Nat.zero_le 1
    · rw [← hi, Server.node?_eq hsane.ids hn'] at hn
      cases hn
  | some t =>
    obtain ⟨htm, hti⟩ := Server.node?_mem hn
    refine ⟨t.obj, htallied t htm hti, fun n hn' hi => ?_⟩
    rw [hsane.ids.eq hn' htm (hi.trans hti.symm)]
    exact .refl _

theorem Counting.arrive (h : Counting i d) {env : Env} {clock : Int} {req : Req}
    (hr : d.roomy fmt i (.arrive env clock req) = true) (hd : d.step fmt i (.arrive env clock req) = some d') :
    Counting i d' := by
  obtain ⟨o, ho, hshow⟩ := h.tallied
  obtain ⟨hs', t, ht, hti, hcase⟩ := step_arrive h.sane hd
  have hot : TalliedOnce t.obj := ho.congr (hshow t ht hti)
  rcases hcase with ⟨-, -, ho'⟩ | ⟨a, period, ha, -, hsame, ho', -, -⟩
  · exact ⟨hs', t.obj, hot, ho'⟩
  · have hn : d.server.node? i = some t := hti ▸ Server.node?_eq h.sane.ids ht
    have hat : TalliedOnce a.ts := hot.congr hsame
    simp only [roomy, hn, Option.bind_some, ha, Option.all_some] at hr
    refine ⟨hs', _, ?_, ho'⟩
    rw [Arrival.detected_eq]
    cases hm : a.missed (d.env fmt env) with
    | none => exact hat
    | some slot =>
      rw [hm] at hr
      exact hat.record (by simpa using hr) _

theorem Counting.tick (h : Counting i d) {clock : Int} (hr : d.roomy fmt i (.tick clock) = true)
    (hd : d.step fmt i (.tick clock) = some d') : Counting i d' := by
  obtain ⟨o, ho, hshow⟩ := h.tallied
  rcases step_tick h.sane hd with rfl | ⟨t, ht, hti, ri, slot, hri, hdue, hs', ho', -⟩
  · exact h
  · have hn : d.server.node? i = some t := hti ▸ Server.node?_eq h.sane.ids ht
    simp only [roomy, hn, Option.all_some, hri, Option.bind_some, hdue] at hr
    exact ⟨hs', _, (ho.congr (hshow t ht hti)).record (by simpa using hr) _, ho'⟩

theorem Counting.update (h : Counting i d) {env : Env} {kept : Json → List Json} {req : Req}
    (hr : d.roomy fmt i (.update env kept req) = true) (hd : d.step fmt i (.update env kept req) = some d') :
    Counting i d' := by
  obtain ⟨o, ho, hshow⟩ := h.tallied
  rcases step_update h.sane hd with rfl | ⟨t, ht, hti, ts, hts, hs', ho'⟩
  · exact h
  · have hn : d.server.node? i = some t := hti ▸ Server.node?_eq h.sane.ids ht
    simp only [roomy, hn, Option.all_some, hts, List.all_eq_true, Bool.or_eq_true, decide_eq_true_eq] at hr
    refine ⟨hs', ts, (ho.congr (hshow t ht hti)).update hts fun j hj => ?_, ho'⟩
    rcases hr _ hj with hne | hle
    · exact absurd rfl hne
    · obtain ⟨v, hv, hle⟩ := (Option.any_eq_true _ _).mp hle
      exact ⟨v, hv, by simpa using hle⟩

/-- In every run with room for the points, `mdc` counts the entries of `mdlt` and is `mdn` at most. -/
theorem tallied_of_roomy_run {fmt : TimeFormat} {i : Nat} {d : Detector} (h : Reach (CreatedOnce i) (RoomyStep fmt i) d) :
    ∀ n ∈ d.server.tree.nodes, n.id = i → Tallied n.obj := by
  have hinv : Counting i d := h.inv (fun _ => Counting.start) fun d d' hc ⟨a, hr, hd⟩ => by
    cases a with
    | arrive env clock req => exact hc.arrive hr hd
    | tick clock => exact hc.tick hr hd
    | update env kept req => exact hc.update hr hd
    | deleteTsi now req p =>
      obtain ⟨o, ho, hshow⟩ := hc.tallied
      obtain ⟨hs', -, -, hkept⟩ := step_deleteTsi hc.sane hd
      exact ⟨hs', o, ho, hkept o hshow⟩
  obtain ⟨o, ho, hshow⟩ := hinv.tallied
  exact fun n hn hi => (ho.congr (hshow n hn hi)).tallied

/-! ## Two runs -/

theorem createdBy_watched {s : Server} (h : watchedServer = some s) :
    ∃ s₀ cb, CreatedBy 2 ⟨s, [], []⟩ firstDay (adminReq .create "TinyIoT" .ts everySecond) s₀ cb := by
  unfold watchedServer at h
  simp only [Option.bind_eq_bind, Option.bind_eq_some_iff, Option.pure_def, Option.some.injEq] at h
  obtain ⟨s₀, hboot, cb, hcb, ⟨s', resp⟩, hcreate, rfl⟩ := h
  obtain ⟨hsane, hnext⟩ := Server.sane_boot hboot
  exact ⟨s₀, cb, hsane, (Server.node?_mem hcb).1, ⟨resp, hcreate⟩, hnext.symm, by decide, 10, rfl, by decide⟩

/-- The events of a run from the time series of the first day, those only that pass a test. -/
def runWatched (ok : Detector → DetectorAct → Bool) (l : List DetectorAct) : Option Detector :=
  watchedServer.bind fun s => l.foldlM (stepIf firstSeconds 2 ok) ⟨s, [], []⟩

theorem created_of_runWatched {ok : Detector → DetectorAct → Bool} {l : List DetectorAct} (h : runWatched ok l = some d) :
    ∃ s s₀ cb, CreatedBy 2 ⟨s, [], []⟩ firstDay (adminReq .create "TinyIoT" .ts everySecond) s₀ cb ∧
      l.foldlM (stepIf firstSeconds 2 ok) ⟨s, [], []⟩ = some d := by
  obtain ⟨s, hs, hl⟩ := Option.bind_eq_some_iff.mp h
  obtain ⟨s₀, cb, hc⟩ := createdBy_watched hs
  exact ⟨s, s₀, cb, hc, hl⟩

/-- The first instance arrives, and two points after it are missed. -/
def twoMissed : List DetectorAct :=
  [.arrive firstDay 1704067200000000 (tsiReq "a" "20240101T000000" 0), .tick 1704067201500000, .tick 1704067202500000]

/-- The detection is switched off and `mdn` lowered. -/
def lowerMdn : List DetectorAct :=
  [.update firstDay (fun _ => []) (adminReq .update "TinyIoT/t" .ts [(.mdd, .bool false)]),
    .update firstDay (fun _ => []) (adminReq .update "TinyIoT/t" .ts [(.mdn, .int 1)])]

theorem tallied_of_roomy_run_two : ∃ d n, Reach (CreatedOnce 2) (RoomyStep firstSeconds 2) d ∧
    n ∈ d.server.tree.nodes ∧ n.id = 2 ∧ (mdltOf n.obj).length = 2 ∧ Tallied n.obj := by
  have hrun : (runWatched (roomy firstSeconds 2) twoMissed).any (fun d => (d.server.node? 2).any fun n =>
      (mdltOf n.obj).length = 2) = true := by
    decide +kernel
  obtain ⟨d, hd, hr⟩ := (Option.any_eq_true _ _).mp hrun
  obtain ⟨n, hn, hlist⟩ := (Option.any_eq_true _ _).mp hr
  obtain ⟨s, s₀, cb, hc, hl⟩ := created_of_runWatched hd
  have hreach : Reach (CreatedOnce 2) (RoomyStep firstSeconds 2) d := by
    refine Reach.of_foldlM ?_ _ (.start ⟨_, _, _, _, hc, by decide⟩) hl
    intro d a d' ha
    exact ⟨a, stepIf_eq_some ha⟩
  obtain ⟨hmem, hid⟩ := Server.node?_mem hn
  exact ⟨d, n, hreach, hmem, hid, by simpa using hlist, tallied_of_roomy_run hreach n hmem hid⟩

/-- `mdc` as a number is `mdn` at most. -/
def mdcWithin (o : Obj) : Bool := ((o.get .mdc).bind Json.number).any fun c => mdnFrom o c

theorem mdcWithin_of_tallied {o : Obj} (h : Tallied o) : mdcWithin o = true := by
  obtain ⟨v, hv, hle⟩ := h.mdn
  simp [mdcWithin, mdnFrom, h.mdc, hv, hle]

theorem mdc_above_lowered_mdn : ¬ ∀ (fmt : TimeFormat) (i : Nat) (d : Detector), Reach (Created i) (Happens fmt i) d →
    ∀ n ∈ d.server.tree.nodes, n.id = i → Tallied n.obj := by
  intro h
  have hrun : (runWatched (fun _ _ => true) (twoMissed ++ lowerMdn)).any (fun d => (d.server.node? 2).any fun n =>
      !mdcWithin n.obj) = true := by
    decide +kernel
  obtain ⟨d, hd, hr⟩ := (Option.any_eq_true _ _).mp hrun
  obtain ⟨n, hn, hbad⟩ := (Option.any_eq_true _ _).mp hr
  obtain ⟨s, s₀, cb, hc, hl⟩ := created_of_runWatched hd
  have hreach : Reach (Created 2) (Happens firstSeconds 2) d := by
    refine Reach.of_foldlM ?_ _ (.start ⟨_, _, _, _, hc⟩) hl
    intro d a d' ha
    exact ⟨a, (stepIf_eq_some ha).2⟩
  obtain ⟨hmem, hid⟩ := Server.node?_mem hn
  rw [mdcWithin_of_tallied (h _ _ d hreach n hmem hid)] at hbad
  cases hbad

end Detector

end TinyIoT
