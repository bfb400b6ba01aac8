/-
What the creation of a time series and of its instances does to the attributes of the body.
-/
import TinyIoT.Resource.TimeSeries
import TinyIoT.Resource.Built

namespace TinyIoT

/-! ## The time series -/

/-- The attributes `create_ts` touches. -/
def tsTouched : List Attr := [.cr, .pei, .peid, .mdd, .mbs, .mni, .mdn, .mdt, .mdc, .cni, .cbs, .mdlt, .at]

theorem entries_orAdd {o : Obj} {k k' : Attr} {v : Json} (h : k ≠ k') :
    Assoc.entries (o.orAdd k v) k' = Assoc.entries o k' :=
  entries_addMissing h

theorem entries_createPeriod {o : Obj} {k : Attr} (h1 : k ≠ .pei) (h2 : k ≠ .peid) :
    Assoc.entries (createPeriod o).1 k = Assoc.entries o k := by
  unfold createPeriod
  split
  · dsimp only
    rw [Assoc.entries_del_ne (Ne.symm h2)]
    split
    · exact Assoc.entries_del_ne (Ne.symm h1)
    · rfl
  · split
    · dsimp only
      rw [Assoc.entries_del_ne (Ne.symm h2)]
      exact Assoc.entries_del_ne (Ne.symm h1)
    · dsimp only
      split
      · rfl
      · exact Assoc.entries_add_ne (Ne.symm h2)

/-- What the object becomes before its counters are reset. -/
theorem buildTs_reset {env : Env} {req : Req} {ts o : Obj} (h : buildTs env req ts = .ok o) :
    ∃ ts', o = announceAt env (resetTs ts') ∧
      (∀ k ∉ [Attr.cr, .pei, .peid, .mdd, .mbs, .mni, .mdn, .mdt], Assoc.entries ts' k = Assoc.entries ts k) ∧
      ∀ j, ts.get .mdn = some j → Obj.get ts' .mdn = some j := by
  have hent : ∀ k ∉ [Attr.cr, .pei, .peid, .mdd, .mbs, .mni, .mdn, .mdt], Assoc.entries
      ((((((createPeriod (ts.orAdd .cr (.str req.fr))).1.orAdd .mdd (.bool false)).orAdd .mbs (.int 262144)).orAdd
        .mni (.int 100)).orAdd .mdn (.int 10)).orAdd .mdt (.int 0)) k = Assoc.entries ts k := by
    intro k hk
    simp only [List.mem_cons, List.not_mem_nil, or_false, not_or] at hk
    obtain ⟨h1, h2, h3, h4, h5, h6, h7, h8⟩ := hk
    rw [entries_orAdd (Ne.symm h8), entries_orAdd (Ne.symm h7), entries_orAdd (Ne.symm h6), entries_orAdd (Ne.symm h5),
      entries_orAdd (Ne.symm h4), entries_createPeriod h2 h3, entries_orAdd (Ne.symm h1)]
  have hmdn : ∀ j, ts.get .mdn = some j → Obj.get
      ((((((createPeriod (ts.orAdd .cr (.str req.fr))).1.orAdd .mdd (.bool false)).orAdd .mbs (.int 262144)).orAdd
        .mni (.int 100)).orAdd .mdn (.int 10)).orAdd .mdt (.int 0)) .mdn = some j := by
    intro j hj
    have hbefore : Obj.get ((((createPeriod (ts.orAdd .cr (.str req.fr))).1.orAdd .mdd (.bool false)).orAdd .mbs
        (.int 262144)).orAdd .mni (.int 100)) .mdn = some j := by
      refine (Assoc.get_congr ?_).trans hj
      rw [entries_orAdd (by decide), entries_orAdd (by decide), entries_orAdd (by decide),
        entries_createPeriod (by decide) (by decide), entries_orAdd (by decide)]
    refine (Assoc.get_congr (entries_orAdd (by decide))).trans ?_
    rw [Obj.orAdd, if_pos (Assoc.has_iff.mpr ⟨j, hbefore⟩)]
    exact hbefore
  unfold buildTs at h
  obtain ⟨⟨⟩, -, h⟩ := bind_ok h
  dsimp only at h
  generalize ((((((createPeriod (ts.orAdd .cr (.str req.fr))).1.orAdd .mdd (.bool false)).orAdd .mbs
    (.int 262144)).orAdd .mni (.int 100)).orAdd .mdn (.int 10)).orAdd .mdt (.int 0)) = ts' at h hent hmdn
  refine ⟨ts', ?_, hent, hmdn⟩
  split at h
  case' isTrue => obtain ⟨⟨⟩, -, h⟩ := bind_ok h
  all_goals
    obtain ⟨⟨⟩, -, h⟩ := bind_ok h
    split at h
    · split at h
      · exact nomatch h
      · exact (Except.ok.inj h).symm
    · exact (Except.ok.inj h).symm

/-- `create_ts` leaves the other attributes alone. -/
theorem buildTs_ok {env : Env} {req : Req} {ts o : Obj} (h : buildTs env req ts = .ok o) :
    ∀ k ∉ tsTouched, o.get k = ts.get k := by
  obtain ⟨ts', rfl, hent, -⟩ := buildTs_reset h
  intro k hk
  simp only [tsTouched, List.mem_cons, List.not_mem_nil, or_false, not_or] at hk
  obtain ⟨h1, h2, h3, h4, h5, h6, h7, h8, h9, h10, h11, h12, h13⟩ := hk
  rw [get_announceAt h13]
  unfold resetTs
  show Assoc.get _ _ = Assoc.get _ _
  rw [Assoc.get_add_ne (Ne.symm h11), Assoc.get_add_ne (Ne.symm h10), Assoc.get_add_ne (Ne.symm h9),
    Assoc.get_del_ne (Ne.symm h12), Assoc.get_del_ne (Ne.symm h11), Assoc.get_del_ne (Ne.symm h10),
    Assoc.get_del_ne (Ne.symm h9), Assoc.get_eq_head, Assoc.get_eq_head, hent]
  simp [h1, h2, h3, h4, h5, h6, h7, h8]

/-! ## The instance -/

theorem get_buildTsi {db : Db} {tsRi : CStr} {snr : Int} {o : Obj} {k : Attr} (h1 : k ≠ .snr) (h2 : k ≠ .rn) :
    (buildTsi db tsRi snr o).get k = o.get k := by
  unfold buildTsi Obj.orAdd
  rw [get_addMissing, get_addMissing, if_neg (Ne.symm h1), if_neg (Ne.symm h2), Option.or_none, Option.or_none]

end TinyIoT
