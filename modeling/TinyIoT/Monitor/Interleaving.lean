/-
Concurrent calls of `notify_missing_data` for one time series. A call takes its total under one lock and
presents it to each subscription under another, so a call may overtake one with a smaller total. The
batches a subscription is given are those of the longest ladder in the totals presented to it: a call
that is overtaken finds its points accounted for, and the batch it should have completed is not made up
for by any other.
-/
import TinyIoT.Monitor.Window
import TinyIoT.Lib.Batching
import TinyIoT.Lib.Reach

namespace TinyIoT

/-- A call between two of its steps: the total it took, and the children it has still to visit. -/
structure Call where
  total : Int
  new : Int
  todo : List RTNode

/-- A call of `md_window_take`: for whom, with which total, and the count before and the size of the
batch it gave, if any. -/
structure Take where
  ri : CStr
  total : Int
  given : Option (Int × Int)
  deriving DecidableEq

/-- The calls for one time series: those in flight, the points detected so far and every
`md_window_take` in the order they were made. -/
structure Calls where
  mon : Monitor
  inFlight : List Call
  detected : Int
  takes : List Take

/-- A thread enters `notify_missing_data`, or one that is in it goes on to the next child, where it finds
the time series as `ts` and the clock at `now`; with no child left it returns. -/
inductive CallAct where
  | enter (new : Int)
  | visit (i : Nat) (ts : Obj) (now : Int)

namespace Take

/-- The totals presented to a subscription. -/
def presented (ri : CStr) (l : List Take) : List Int :=
  l.filterMap fun t => if t.ri = ri then some t.total else none

/-- The batches a subscription was given. -/
def batches (ri : CStr) (l : List Take) : List (Int × Int) :=
  l.filterMap fun t => if t.ri = ri then t.given else none

theorem presented_append (ri : CStr) (l l' : List Take) :
    presented ri (l ++ l') = presented ri l ++ presented ri l' := List.filterMap_append

theorem batches_append (ri : CStr) (l l' : List Take) : batches ri (l ++ l') = batches ri l ++ batches ri l' :=
  List.filterMap_append

theorem presented_of_ne {ri : CStr} {l : List Take} (h : ∀ t ∈ l, t.ri ≠ ri) : presented ri l = [] :=
  List.filterMap_eq_nil_iff.mpr fun t ht => if_neg (h t ht)

theorem batches_of_ne {ri : CStr} {l : List Take} (h : ∀ t ∈ l, t.ri ≠ ri) : batches ri l = [] :=
  List.filterMap_eq_nil_iff.mpr fun t ht => if_neg (h t ht)

end Take

namespace Calls

variable (strtod : Strtod) (tsRi : Option CStr) (children : List RTNode)

/-- What a visit adds to the list of takes. -/
def takeOf (x : RTNode) (total : Int) (v : Visit) : List Take :=
  match mdWanted strtod x, x.ri with
  | some _, some ri => [⟨ri, total, v.taken⟩]
  | _, _ => []

/-- One atomic step of one call. -/
def step (s : Calls) : CallAct → Option Calls
  | .enter new =>
    if children.isEmpty then some s
    else
      let r := s.mon.tsAddMissingTotal tsRi (newCount new)
      some ⟨r.1, s.inFlight ++ [⟨r.2, newCount new, children⟩], s.detected + newCount new, s.takes⟩
  | .visit i ts now => do
    let c ← s.inFlight[i]?
    match c.todo with
    | [] => return { s with inFlight := s.inFlight.eraseIdx i }
    | x :: rest =>
      let v := visitChild strtod ts c.total c.new now s.mon x
      return ⟨v.mon, s.inFlight.set i { c with todo := rest }, s.detected, s.takes ++ takeOf strtod x c.total v⟩

/-- The step finds the window of the subscription run out. -/
def expires (ri : CStr) (s : Calls) : CallAct → Bool
  | .enter _ => false
  | .visit i _ now => match s.inFlight[i]? with
    | some ⟨_, _, x :: _⟩ => x.ri = some ri && (mdWanted strtod x).any fun w => (s.mon.window ri).expired w.2 now
    | _ => false

/-- No point was detected yet and the subscription has no entry. -/
def Fresh (ri : CStr) (s : Calls) : Prop :=
  ∃ m : Monitor, s = ⟨m, [], 0, []⟩ ∧ (∀ r, tsRi = some r → m.total r = 0) ∧ Assoc.get m.windows ri = none

/-- A step of any of the calls at which the window of the subscription does not run out. -/
def Step (ri : CStr) (s s' : Calls) : Prop :=
  ∃ a, s.expires strtod ri a = false ∧ s.step strtod tsRi children a = some s'

end Calls

/-! ## A window that does not run out -/

namespace Window

theorem reported_roll_of_not_expired {w : Window} {total new dur now : Int} (h : w.expired dur now = false) :
    (w.roll total new dur now).reported = w.reported := by
  rw [reported_roll, if_neg (by simp [h])]

end Window

namespace Monitor

theorem total_putEntry_le {m : Monitor} {ri : CStr} {t T : Int} (h : m.total ri ≤ T) (ht : t ≤ T) :
    ({ m with totals := putEntry m.totals ri t } : Monitor).total ri ≤ T := by
  unfold total putEntry at *
  by_cases hm : Assoc.has m.totals ri = true
  · obtain ⟨w, hw⟩ := Assoc.has_iff.mp hm
    simp only [if_pos hm, Assoc.get_set_self hw]
    exact ht
  · simp only [if_neg hm, Assoc.get_cons]
    split
    · exact ht
    · exact h

/-- The total a call takes is at most what has been detected, whether or not the series has an entry. -/
theorem tsAddMissingTotal_le {m : Monitor} {ri : Option CStr} {n T : Int} (hT : 0 ≤ T)
    (h : ∀ r, ri = some r → m.total r ≤ T) (hn : 0 ≤ n) :
    (m.tsAddMissingTotal ri n).2 ≤ T + n ∧ (∀ r, ri = some r → (m.tsAddMissingTotal ri n).1.total r ≤ T + n) ∧
      (m.tsAddMissingTotal ri n).1.windows = m.windows := by
  cases ri with
  | none => exact ⟨by show 0 ≤ T + n; omega, by simp, rfl⟩
  | some r =>
    have hr := h r rfl
    unfold tsAddMissingTotal
    simp only
    split
    · refine ⟨by show 0 ≤ T + n; omega, ?_, rfl⟩
      rintro r' ⟨⟩
      show m.total r ≤ T + n
      omega
    · refine ⟨by show m.total r + n ≤ T + n; omega, ?_, rfl⟩
      rintro r' ⟨⟩
      exact total_putEntry_le (by omega) (by omega)

end Monitor

/-! ## The invariant -/

/-- The window of a subscription after the totals presented to it, and what bounds these. -/
structure Calls.Inv (tsRi : Option CStr) (children : List RTNode) (ri : CStr) (n : Int) (s : Calls) : Prop where
  detected : 0 ≤ s.detected
  total : ∀ r, tsRi = some r → s.mon.total r ≤ s.detected
  inFlight : ∀ c ∈ s.inFlight, c.total ≤ s.detected ∧ ∀ x ∈ c.todo, x ∈ children
  presented : ∀ t ∈ Take.presented ri s.takes, t ≤ s.detected
  reported : (s.mon.window ri).reported = Batching.given n 0 (Take.presented ri s.takes) * n
  batches : Take.batches ri s.takes =
    (List.range (Batching.given n 0 (Take.presented ri s.takes))).map fun j => ((j : Int) * n, n)

namespace Calls

section

variable {strtod : Strtod} {tsRi : Option CStr} {children : List RTNode} {sub : RTNode} {ri : CStr} {n d : Int}

theorem Inv.of_fresh {s : Calls} (h : Fresh tsRi ri s) : s.Inv tsRi children ri n := by
  obtain ⟨m, rfl, ht, hw⟩ := h
  refine ⟨le_refl 0, fun r hr => (ht r hr).le, by simp, by simp [Take.presented], ?_, ?_⟩
  · simp [Monitor.window, hw, Window.fresh, Take.presented, Batching.given]
  · simp [Take.batches, Take.presented, Batching.given]

/-- A call takes its total. -/
theorem Inv.enter {s s' : Calls} (hs : s.Inv tsRi children ri n) {new : Int}
    (h : s.step strtod tsRi children (.enter new) = some s') : s'.Inv tsRi children ri n := by
  have hpos : 0 < newCount new := by unfold newCount; split <;> omega
  simp only [step] at h
  split at h
  · cases h; exact hs
  · cases h
    have ht := Monitor.tsAddMissingTotal_le hs.detected hs.total (Int.le_of_lt hpos)
    obtain ⟨ht₁, ht₂, ht₃⟩ := ht
    have hd := hs.detected
    refine ⟨by show 0 ≤ s.detected + newCount new; omega, ht₂, ?_, ?_, ?_, hs.batches⟩
    · intro c hc
      rcases List.mem_append.mp hc with hc | hc
      · obtain ⟨h₁, h₂⟩ := hs.inFlight c hc
        exact ⟨by show c.total ≤ s.detected + newCount new; omega, h₂⟩
      · cases List.mem_singleton.mp hc
        exact ⟨ht₁, fun x hx => hx⟩
    · intro t hmem
      have := hs.presented t hmem
      show t ≤ s.detected + newCount new
      omega
    · have hwin : ∀ r, (s.mon.tsAddMissingTotal tsRi (newCount new)).1.window r = s.mon.window r := by
        intro r
        unfold Monitor.window
        rw [ht₃]
      show ((s.mon.tsAddMissingTotal tsRi (newCount new)).1.window ri).reported = _
      rw [hwin]
      exact hs.reported

/-- What a visit by a call with this total does to the window and the takes of the subscription, when the
window does not run out: the total is presented. -/
theorem visit_spec {m : Monitor} (ts : Obj) (total new : Int) {now : Int} {k : Nat} {x : RTNode} (hlen : ri.length ≤ 255)
    (hri : x.ri = some ri) (hw : mdWanted strtod x = some (n, d)) (hk : (m.window ri).reported = k * n)
    (he : (m.window ri).expired d now = false) :
    ((visitChild strtod ts total new now m x).mon.window ri).reported = Batching.present n k total * n ∧
      (visitChild strtod ts total new now m x).taken =
        if Batching.present n k total = k then none else some ((k : Int) * n, n) := by
  rw [visitChild_take hw hri, Window.reported_roll_of_not_expired he, hk]
  by_cases h : n ≤ total - k * n
  · have hp : Batching.present n k total = k + 1 := if_pos h
    rw [if_pos h, Monitor.window_putEntry_self hlen, hp]
    refine ⟨?_, by simp⟩
    push_cast
    ring
  · have hp : Batching.present n k total = k := if_neg h
    rw [if_neg h, Monitor.window_putEntry_self hlen, hp, Window.reported_roll_of_not_expired he]
    exact ⟨hk, by simp⟩

/-- A call goes on to its next child. -/
theorem Inv.visit {s s' : Calls} (hs : s.Inv tsRi children ri n) (hlen : ri.length ≤ 255)
    (hri : sub.ri = some ri) (hw : mdWanted strtod sub = some (n, d))
    (huniq : ∀ x ∈ children, ∀ r, x.ri = some r → entryRi r = ri → x = sub) {i : Nat} {ts : Obj} {now : Int}
    (he : s.expires strtod ri (.visit i ts now) = false)
    (h : s.step strtod tsRi children (.visit i ts now) = some s') : s'.Inv tsRi children ri n := by
  simp only [step, Option.bind_eq_bind, Option.bind_eq_some_iff] at h
  obtain ⟨⟨total, new, todo⟩, hc, h⟩ := h
  obtain ⟨hct, hcx⟩ := hs.inFlight _ (List.mem_of_getElem? hc)
  cases todo with
  | nil =>
    cases h
    exact ⟨hs.detected, hs.total, fun c' hc' => hs.inFlight c' (List.mem_of_mem_eraseIdx hc'), hs.presented,
      hs.reported, hs.batches⟩
  | cons x rest =>
    cases h
    have hfl : ∀ c' ∈ s.inFlight.set i ⟨total, new, rest⟩, c'.total ≤ s.detected ∧ ∀ y ∈ c'.todo, y ∈ children := by
      intro c' hc'
      rcases List.mem_or_eq_of_mem_set hc' with hc' | rfl
      · exact hs.inFlight c' hc'
      · exact ⟨hct, fun y hy => hcx y (List.mem_cons_of_mem x hy)⟩
    have htot : ∀ r, tsRi = some r → (visitChild strtod ts total new now s.mon x).mon.total r ≤ s.detected := by
      intro r hr
      unfold Monitor.total
      rw [visitChild_totals]
      exact hs.total r hr
    by_cases hsub : x = sub
    · subst hsub
      have hex : (s.mon.window ri).expired d now = false := by
        simpa [expires, hc, hri, hw] using he
      obtain ⟨hrep, htk⟩ := visit_spec ts total new hlen hri hw hs.reported hex
      have hto : takeOf strtod x total (visitChild strtod ts total new now s.mon x) =
          [⟨ri, total, (visitChild strtod ts total new now s.mon x).taken⟩] := by
        simp [takeOf, hw, hri]
      have hpr : Take.presented ri (s.takes ++ takeOf strtod x total (visitChild strtod ts total new now s.mon x)) =
          Take.presented ri s.takes ++ [total] := by
        rw [hto, Take.presented_append]
        simp [Take.presented]
      have hgv : Batching.given n 0 (Take.presented ri s.takes ++ [total]) =
          Batching.present n (Batching.given n 0 (Take.presented ri s.takes)) total := by
        simp [Batching.given]
      refine ⟨hs.detected, htot, hfl, ?_, ?_, ?_⟩
      · intro t ht
        rw [hpr, List.mem_append, List.mem_singleton] at ht
        rcases ht with ht | rfl
        · exact hs.presented t ht
        · exact hct
      · rw [hpr, hgv]
        exact hrep
      · rw [hpr, hgv]
        have hb : Take.batches ri (s.takes ++ takeOf strtod x total (visitChild strtod ts total new now s.mon x)) =
            Take.batches ri s.takes ++ (visitChild strtod ts total new now s.mon x).taken.toList := by
          rw [hto, Take.batches_append]
          cases (visitChild strtod ts total new now s.mon x).taken <;> simp [Take.batches]
        rw [hb, htk, hs.batches]
        rcases Batching.present_cases (n := n) (Batching.given n 0 (Take.presented ri s.takes)) total with hp | hp
        · simp [hp]
        · simp [hp, List.range_succ]
    · have hne : ∀ r, x.ri = some r → entryRi r ≠ ri := fun r hr he => hsub (huniq x (hcx x List.mem_cons_self) r hr he)
      have hto : ∀ t ∈ takeOf strtod x total (visitChild strtod ts total new now s.mon x), t.ri ≠ ri := by
        intro t ht
        unfold takeOf at ht
        split at ht
        · rename_i r _ hr
          cases List.mem_singleton.mp ht
          rintro rfl
          exact hne _ hr (entryRi_eq hlen)
        · cases ht
      have hpr : Take.presented ri (s.takes ++ takeOf strtod x total (visitChild strtod ts total new now s.mon x)) =
          Take.presented ri s.takes := by
        rw [Take.presented_append, Take.presented_of_ne hto, List.append_nil]
      have hb : Take.batches ri (s.takes ++ takeOf strtod x total (visitChild strtod ts total new now s.mon x)) =
          Take.batches ri s.takes := by
        rw [Take.batches_append, Take.batches_of_ne hto, List.append_nil]
      refine ⟨hs.detected, htot, hfl, ?_, ?_, ?_⟩
      · rw [hpr]; exact hs.presented
      · rw [hpr]
        show ((visitChild strtod ts total new now s.mon x).mon.window ri).reported = _
        rw [visitChild_window_of_ne hlen hne]
        exact hs.reported
      · rw [hpr, hb]; exact hs.batches

theorem Inv.of_reach {s : Calls} (hri : sub.ri = some ri) (hlen : ri.length ≤ 255)
    (hw : mdWanted strtod sub = some (n, d))
    (huniq : ∀ x ∈ children, ∀ r, x.ri = some r → entryRi r = ri → x = sub)
    (h : Reach (Fresh tsRi ri) (Step strtod tsRi children ri) s) : s.Inv tsRi children ri n := by
  refine h.inv (I := Inv tsRi children ri n) (fun _ hs => Inv.of_fresh hs) ?_
  rintro s s' hs ⟨a, he, ha⟩
  cases a with
  | enter new => exact hs.enter ha
  | visit i ts now => exact hs.visit hlen hri hw huniq he ha

end

/-- The batches a subscription is due: the `j`-th starts at `j * n` and has `n` points. -/
def dueBatches (n total : Int) : List (Int × Int) :=
  (List.range (total / n).toNat).map fun j => ((j : Int) * n, n)

/-- In every state the calls can reach, so also when none is in flight, a subscription with threshold `n`
has been given each batch it is due exactly once if and only if the totals reached it so that, in the
order presented, one covers the first batch, a later one the second, and so on to the last due. -/
theorem batches_eq_due_iff_ladder {strtod : Strtod} {tsRi : Option CStr} {children : List RTNode} {sub : RTNode}
    {ri : CStr} {n d : Int} {s : Calls} (hri : sub.ri = some ri) (hlen : ri.length ≤ 255)
    (hw : mdWanted strtod sub = some (n, d))
    (huniq : ∀ x ∈ children, ∀ r, x.ri = some r → entryRi r = ri → x = sub)
    (h : Reach (Fresh tsRi ri) (Step strtod tsRi children ri) s) :
    Take.batches ri s.takes = dueBatches n s.detected ↔
      ∃ l : List Int, l.Sublist (Take.presented ri s.takes) ∧ l.length = (s.detected / n).toNat ∧
        Batching.Ladder n 0 l := by
  have hs := Inv.of_reach hri hlen hw huniq h
  rw [← Batching.given_eq_div_iff (mdWanted_pos hw) hs.detected hs.presented, hs.batches, dueBatches]
  constructor
  · intro he
    simpa using congrArg List.length he
  · intro he
    rw [he]

/-- A step that `Step` allows, performed. -/
def stepOpen (strtod : Strtod) (tsRi : Option CStr) (children : List RTNode) (ri : CStr) (s : Calls) (a : CallAct) :
    Option Calls :=
  if s.expires strtod ri a then none else s.step strtod tsRi children a

theorem step_of_stepOpen {strtod : Strtod} {tsRi : Option CStr} {children : List RTNode} {ri : CStr} {s s' : Calls}
    {a : CallAct} (h : s.stepOpen strtod tsRi children ri a = some s') : Step strtod tsRi children ri s s' := by
  unfold stepOpen at h
  split at h
  · cases h
  · rename_i he
    exact ⟨a, by simpa using he, h⟩

end Calls

/-! ## Two calls -/

/-- The run of two calls, the second of which enters before (`true`) or after the first has visited the
only child; in the first case it also visits it first. -/
def twoCalls (overtake : Bool) : Option Calls :=
  (if overtake then [.enter 1, .enter 1, .visit 1 [] 7, .visit 0 [] 8, .visit 0 [] 8, .visit 0 [] 9]
    else [.enter 1, .visit 0 [] 7, .visit 0 [] 7, .enter 1, .visit 0 [] 8, .visit 0 [] 9]).foldlM
    (Calls.stepOpen (fun _ => none) (some "29-1".toList) [missingSub 1 "23-1".toList 1 []] "23-1".toList) ⟨⟨[], []⟩, [], 0, []⟩

theorem reach_twoCalls {b : Bool} {s : Calls} (h : twoCalls b = some s) :
    Reach (Calls.Fresh (some "29-1".toList) "23-1".toList)
      (Calls.Step (fun _ => none) (some "29-1".toList) [missingSub 1 "23-1".toList 1 []] "23-1".toList) s := by
  have hf : ∀ (s : Calls) (a : CallAct) (s' : Calls), s.stepOpen (fun _ => none) (some "29-1".toList)
      [missingSub 1 "23-1".toList 1 []] "23-1".toList a = some s' → Calls.Step (fun _ => none) (some "29-1".toList)
      [missingSub 1 "23-1".toList 1 []] "23-1".toList s s' := fun _ _ _ => Calls.step_of_stepOpen
  refine Reach.of_foldlM hf _ (.start ?_) h
  refine ⟨⟨[], []⟩, rfl, ?_, rfl⟩
  rintro r ⟨⟩
  rfl

theorem only_missingSub {ri : CStr} {n : Int} : ∀ x ∈ [missingSub 1 ri n []], ∀ r, x.ri = some r → entryRi r = ri →
    x = missingSub 1 ri n [] := by
  intro x hx r _ _
  exact List.mem_singleton.mp hx

/-- With two calls one after the other both batches are given. -/
theorem batches_eq_due_two_calls : ∃ s : Calls,
    Reach (Calls.Fresh (some "29-1".toList) "23-1".toList)
      (Calls.Step (fun _ => none) (some "29-1".toList) [missingSub 1 "23-1".toList 1 []] "23-1".toList) s ∧
    s.inFlight.length = 0 ∧ s.detected = 2 ∧ Take.batches "23-1".toList s.takes = Calls.dueBatches 1 2 := by
  have hrun : (twoCalls false).any (fun s => decide (s.inFlight.length = 0 ∧ s.detected = 2 ∧
      Take.presented "23-1".toList s.takes = [1, 2])) = true := by decide +kernel
  obtain ⟨s, hs, hc⟩ := (Option.any_eq_true _ _).mp hrun
  obtain ⟨hq, hd, hp⟩ := of_decide_eq_true hc
  have hr := reach_twoCalls hs
  refine ⟨s, hr, hq, hd, ?_⟩
  rw [← hd]
  have hw : mdWanted (fun _ => none) (missingSub 1 "23-1".toList 1 []) = some (1, 0) := by decide +kernel
  refine (Calls.batches_eq_due_iff_ladder rfl (by decide) hw only_missingSub hr).mpr ⟨[1, 2], ?_, ?_, ?_⟩
  · rw [hp]
  · rw [hd]; rfl
  · simp [Batching.Ladder]

/-- A call that is overtaken by one with a larger total completes no batch, and nothing makes up for it:
two points are detected, and a subscription that wants to hear of each is told once. -/
theorem batch_withheld_when_overtaken : ¬ ∀ (strtod : Strtod) (tsRi : Option CStr) (children : List RTNode) (sub : RTNode)
    (ri : CStr) (n d : Int) (s : Calls), sub ∈ children → sub.ri = some ri → ri.length ≤ 255 →
    mdWanted strtod sub = some (n, d) → (∀ x ∈ children, ∀ r, x.ri = some r → entryRi r = ri → x = sub) →
    Reach (Calls.Fresh tsRi ri) (Calls.Step strtod tsRi children ri) s → s.inFlight = [] →
    Take.batches ri s.takes = Calls.dueBatches n s.detected := by
  intro h
  have hrun : (twoCalls true).any (fun s => decide (s.inFlight.length = 0 ∧
      Take.batches "23-1".toList s.takes ≠ Calls.dueBatches 1 s.detected)) = true := by decide +kernel
  obtain ⟨s, hs, hc⟩ := (Option.any_eq_true _ _).mp hrun
  obtain ⟨hq, hb⟩ := of_decide_eq_true hc
  have hr := reach_twoCalls hs
  have hw : mdWanted (fun _ => none) (missingSub 1 "23-1".toList 1 []) = some (1, 0) := by decide +kernel
  exact hb (h (fun _ => none) (some "29-1".toList) _ (missingSub 1 "23-1".toList 1 []) _ 1 0 s List.mem_cons_self rfl
    (by decide) hw only_missingSub hr (List.length_eq_zero_iff.mp hq))

end TinyIoT
