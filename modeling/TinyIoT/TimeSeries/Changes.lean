/-
What an update of a time series changes: the body that is applied, and the restart of the detection of
missing data points.
-/
import TinyIoT.TimeSeries.Creates

namespace TinyIoT

/-! ## The body of an update -/

theorem mem_orAdd {o : Obj} {k : Attr} {v : Json} {e : Attr × Json} (h : e ∈ o.orAdd k v) : e ∈ o ∨ e = (k, v) := by
  unfold Obj.orAdd at h
  split at h
  · exact .inl h
  · exact Assoc.mem_add h

theorem touches_orAdd {l : List Attr} (o : Obj) {k : Attr} (v : Json) (hk : k ∈ l) : Assoc.Touches l o (o.orAdd k v) := by
  unfold Obj.orAdd
  split
  · exact .refl l o
  · exact .add o v hk

/-- The body that is applied: `pei` is null or as it was, and a `peid` may have been added. -/
theorem updatePeriod_cases {target body body' : Obj} (h : updatePeriod target body = .ok body') :
    ∃ o : Obj, (o = body ∨ o = (body.set .pei .null).orAdd .peid .null) ∧ (body' = o ∨ ∃ v, body' = o.add .peid v) := by
  have hboth : ∀ (c : Bool) (p : Prop) [Decidable p] (v : Json) (o : Obj),
      o = (if p then ((if c then (body.set .pei .null).orAdd .peid .null else body).add .peid v) else
        (if c then (body.set .pei .null).orAdd .peid .null else body)) →
      ∃ o' : Obj, (o' = body ∨ o' = (body.set .pei .null).orAdd .peid .null) ∧ (o = o' ∨ ∃ v, o = o'.add .peid v) := by
    rintro c p _ v o rfl
    refine ⟨if c then (body.set .pei .null).orAdd .peid .null else body, ?_, ?_⟩
    · split
      · exact .inr rfl
      · exact .inl rfl
    · by_cases hp : p
      · rw [if_pos hp]
        exact .inr ⟨v, rfl⟩
      · rw [if_neg hp]
        exact .inl rfl
  unfold updatePeriod at h
  dsimp only at h
  split at h
  · split at h
    · cases h
    · exact hboth _ _ _ _ (Except.ok.inj h).symm
  · exact hboth _ _ _ _ (Except.ok.inj h).symm

theorem touches_updatePeriod {target body body' : Obj} (h : updatePeriod target body = .ok body') :
    Assoc.Touches [Attr.pei, .peid] body body' := by
  obtain ⟨o, ho, hadd⟩ := updatePeriod_cases h
  have hfirst : Assoc.Touches [Attr.pei, .peid] body o := by
    rcases ho with rfl | rfl
    · exact .refl _ _
    · exact (Assoc.Touches.set body .null (by decide)).trans (touches_orAdd _ .null (by decide))
  rcases hadd with rfl | ⟨v, rfl⟩
  · exact hfirst
  · exact hfirst.trans (.add o v (by decide))

/-- The members of the body that is applied are those of the request, up to the period. -/
theorem updatePeriod_ok {target body body' : Obj} (h : updatePeriod target body = .ok body') :
    (∀ k ∉ [Attr.pei, .peid], body'.get k = body.get k) ∧ ∀ e ∈ body', e ∈ body ∨ e.1 = .pei ∨ e.1 = .peid := by
  refine ⟨fun k hk => (touches_updatePeriod h).get hk, fun e he => ?_⟩
  obtain ⟨o, ho, hadd⟩ := updatePeriod_cases h
  have hfirst : e ∈ o → e ∈ body ∨ e.1 = .pei ∨ e.1 = .peid := by
    rcases ho with rfl | rfl
    · exact .inl
    · intro he
      rcases mem_orAdd he with he | rfl
      · rcases Assoc.mem_set he with he | rfl
        · exact .inl he
        · exact .inr (.inl rfl)
      · exact .inr (.inr rfl)
  rcases hadd with rfl | ⟨v, rfl⟩
  · exact hfirst he
  · rcases Assoc.mem_add he with he | rfl
    · exact hfirst he
    · exact .inr (.inr rfl)

/-- Only the list of missing points and the time of modification change. -/
theorem touches_restartDetection (now : CStr) (o : Obj) : Assoc.Touches [Attr.mdc, .mdlt, .lt] o (restartDetection now o) := by
  unfold restartDetection
  cases o.get .mdc with
  | none => exact ((Assoc.Touches.add o _ (by decide)).trans (.del _ (by decide))).trans (.set _ _ (by decide))
  | some j => exact ((Assoc.Touches.set o _ (by decide)).trans (.del _ (by decide))).trans (.set _ _ (by decide))

theorem get_restartDetection {now : CStr} {o : Obj} {k : Attr} (hk : k ∉ [Attr.mdc, .mdlt, .lt]) :
    (restartDetection now o).get k = o.get k := (touches_restartDetection now o).get hk

end TinyIoT
