/-
A check that fails answers with a refusal: no error of a handler's checks has a status code of success.
-/
import TinyIoT.Resource.Container
import TinyIoT.Resource.Sdt

namespace TinyIoT

/-! ## Refusals -/

/-- A request is answered with success. -/
def Resp.accepted (r : Resp) : Bool := r.rsc = .created || r.rsc = .updated

/-- An error of the check refuses the request. -/
def Denies {α : Type} (x : Except Resp α) : Prop := ∀ r, x = .error r → r.accepted = false

namespace Denies

variable {α β : Type}

theorem ok (a : α) : Denies (.ok a : Except Resp α) := by
  rintro r ⟨⟩

theorem handled {rsc : Rsc} {msg : String} (h : (handleError rsc msg).accepted = false) :
    Denies (.error (handleError rsc msg) : Except Resp α) := by
  rintro r ⟨⟩
  exact h

theorem bind {x : Except Resp α} {f : α → Except Resp β} (hx : Denies x) (hf : ∀ a, Denies (f a)) :
    Denies (x >>= f) := by
  cases x with
  | error e =>
    rintro r ⟨⟩
    exact hx e rfl
  | ok a => exact hf a

/-- What would follow a refusal does not matter. -/
theorem stop {rsc : Rsc} {msg : String} {f : α → Except Resp β} (h : (handleError rsc msg).accepted = false) :
    Denies ((.error (handleError rsc msg) : Except Resp α) >>= f) := by
  rintro r ⟨⟩
  exact h

theorem ite {p : Prop} [Decidable p] {x y : Except Resp α} (hx : Denies x) (hy : Denies y) :
    Denies (if p then x else y) := by
  split
  · exact hx
  · exact hy

theorem forM {f : β → Except Resp PUnit} (h : ∀ b, Denies (f b)) (l : List β) : Denies (l.forM f) := by
  induction l with
  | nil => exact .ok _
  | cons b l ih => exact (h b).bind fun _ => ih

theorem check (ok : Bool) (msg : String) : Denies (require ok msg) := by
  unfold require
  split
  · exact .ok ()
  · exact .handled rfl

theorem ne_created {x : Except Resp α} (h : Denies x) {r : Resp} (hr : x = .error r) : r.rsc ≠ .created := by
  rintro hc
  have := h r hr
  rw [Resp.accepted, hc] at this
  cases this

theorem ne_updated {x : Except Resp α} (h : Denies x) {r : Resp} (hr : x = .error r) : r.rsc ≠ .updated := by
  rintro hu
  have := h r hr
  rw [Resp.accepted, hu] at this
  cases this

end Denies

/-! ## The checks of the handlers -/

theorem denies_validateMandatoryAttrs (ty : ResourceType) (o : Obj) (op : Operation) :
    Denies (validateMandatoryAttrs ty o op) := by
  refine .forM (fun k => ?_) _
  split
  · exact .ite (.handled rfl) (.ok ())
  · exact .ite (.handled rfl) (.ok ())
  · exact .ok ()

theorem denies_validateAcpi (now : CStr) (s : Server) (acpi : Json) (op : Operation) :
    Denies (validateAcpi now s acpi op) := by
  unfold validateAcpi
  split
  · exact .ite (.ok ()) (.handled rfl)
  · exact .handled rfl
  · refine .forM (fun j => ?_) _
    unfold validateAcpiEntry
    split
    · exact .handled rfl
    · refine .ite (.handled rfl) ?_
      split
      · exact .handled rfl
      · exact .ite (.handled rfl) (.ok ())
  · exact .handled rfl

theorem denies_assignCreator (req : Req) (o : Obj) : Denies (assignCreator req o) := by
  unfold assignCreator
  split
  · exact .ok _
  · exact .ok _
  · exact .handled rfl

theorem denies_checkNonNegative (o : Obj) (k : Attr) (msg : String) : Denies (checkNonNegative o k msg) := by
  unfold checkNonNegative
  split
  · exact .ok ()
  · exact .ite (.handled rfl) (.ok ())

theorem denies_validateCnt (now : CStr) (s : Server) (o : Obj) (op : Operation) : Denies (validateCnt now s o op) := by
  have hlimits : Denies (do
      checkNonNegative o .mia "attribute `mia` is invalid"
      checkNonNegative o .mni "attribute `mni` is invalid"
      checkNonNegative o .mbs "attribute `mbs` is invalid") :=
    .bind (denies_checkNonNegative _ _ _) fun _ => .bind (denies_checkNonNegative _ _ _) fun _ =>
      denies_checkNonNegative _ _ _
  unfold validateCnt
  refine .bind ?_ fun _ => ?_
  · refine .bind (denies_validateMandatoryAttrs _ _ _) fun _ => ?_
    dsimp only
    exact .ite (.stop rfl) (.ite (.handled rfl) (.ok ()))
  · dsimp only
    split
    · exact .bind (.ok ()) fun _ => hlimits
    · exact .bind (denies_validateAcpi _ _ _ _) fun _ => hlimits

theorem denies_buildCnt (env : Env) (req : Req) (s : Server) (o : Obj) : Denies (buildCnt env req s o) :=
  .bind (denies_validateCnt _ _ _ _) fun _ => .bind (denies_assignCreator _ _) fun _ => .ok _

theorem denies_validateCin (parent o : Obj) (op : Operation) : Denies (validateCin parent o op) := by
  unfold validateCin
  refine .bind (denies_validateMandatoryAttrs _ _ _) fun _ => ?_
  dsimp only
  refine .ite (.stop rfl) (.ite (.stop rfl) ?_)
  split
  · refine .ite (.stop rfl) (.bind (.ok ()) fun _ => ?_)
    split
    · exact .ok ()
    · exact .ite (.ok ()) (.handled rfl)
  · refine .bind (.ok ()) fun _ => ?_
    split
    · exact .ok ()
    · exact .ite (.ok ()) (.handled rfl)

theorem denies_buildCin (env : Env) (req : Req) (parent : Obj) (st : Int) (o : Obj) :
    Denies (buildCin env req parent st o) :=
  .bind (denies_validateCin _ _ _) fun _ => .bind (denies_assignCreator _ _) fun _ => .ok _

end TinyIoT
