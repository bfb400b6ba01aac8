/-
What a subscription has accounted for against the running total of its time series. The two live in
different lists and are reset at different moments: an update that carries `mdd` forgets the total and
leaves the count. Where that happens only while nothing has been accounted for, the count never exceeds
the total, and `num` further points in one window make a notification.
-/
import TinyIoT.Monitor.Detection

namespace TinyIoT

namespace Window

variable {w : Window} {total n d now : Int}

/-- Presenting the next total accounts for at most that many points. -/
theorem reported_advance_le (h : w.reported ≤ total) : (w.advance (total + 1) n d now).reported ≤ total + 1 := by
  have hr : (w.roll (total + 1) 1 d now).reported ≤ total + 1 := by
    rw [reported_roll]
    split <;> omega
  unfold advance settle
  split
  · show (w.roll (total + 1) 1 d now).reported + n ≤ total + 1
    omega
  · exact hr

theorem reported_advance_nonneg (h : 0 ≤ w.reported) (ht : 0 ≤ total) (hn : 0 < n) :
    0 ≤ (w.advance (total + 1) n d now).reported := by
  have hr : 0 ≤ (w.roll (total + 1) 1 d now).reported := by
    rw [reported_roll]
    split <;> omega
  unfold advance settle
  split
  · show 0 ≤ (w.roll (total + 1) 1 d now).reported + n
    omega
  · exact hr

end Window

/-! ## A full batch is sent -/

theorem length_trimTo_pos {α : Type} (ts : Obj) (l : List α) (x : α) : 0 < (trimTo ts (l ++ [x])).length := by
  unfold trimTo
  split
  · rw [List.length_drop, List.length_append, List.length_singleton]
    omega
  · simp

/-- A batch that is full leaves something of `mdlt` to send. -/
theorem mdNotice_isSome {ts : Obj} {x : RTNode} {total before n : Int} (hm : 0 < (mdltOf ts).length) (hn : 0 < n)
    (hnu : ((subObj x).member .nu).any Json.isArray = true) (hp : n ≤ total - before) (hmax : total - before ≤ intMax) :
    ∃ e, mdNotice ts x total before n = some e ∧ e.sub = x.id := by
  have hc : cInt (total - before) = total - before := cInt_eq (by unfold intMin; omega) hmax
  have hlen : 0 < (mdBatch (mdltOf ts).length total before n).2 := by
    unfold mdBatch
    rw [hc]
    dsimp only
    omega
  exact ⟨mdSendNotification x (mdltOf ts) (mdBatch (mdltOf ts).length total before n).1
    (mdBatch (mdltOf ts).length total before n).2, if_pos ⟨hlen, hnu⟩, rfl⟩

namespace Watch

/-- No subscription for missing points has accounted for more than its time series has counted. -/
def Accounted (strtod : Strtod) (s : Watch) : Prop :=
  ∀ e ∈ s.series, ∀ x ∈ e.2.children, (mdWanted strtod x).isSome = true → (s.windowOf x).reported ≤ s.totalOf e.2

instance (strtod : Strtod) (s : Watch) : Decidable (s.Accounted strtod) := by unfold Accounted; infer_instance

/-- The empty CSE. -/
def empty : Watch := ⟨⟨[], []⟩, [], 0, [], 0, []⟩

/-- An event that does not forget a running total while a subscription of the time series has accounted for
some of it, and keeps the total in the range of an `int`. -/
def steady (strtod : Strtod) (s : Watch) : WatchAct → Bool
  | .updateTs ts body _ _ => !body.has .mdd || (Assoc.get s.series ts).all fun t =>
      t.children.all fun x => (mdWanted strtod x).isNone || (s.windowOf x).reported = 0
  | .detect ts _ _ => (Assoc.get s.series ts).all fun t => s.totalOf t < intMax
  | _ => true

/-- Any event. -/
def Next (strtod : Strtod) (s s' : Watch) : Prop := ∃ a, s.step strtod a = some s'

/-- An event with proper identifiers that is steady. -/
def SteadyNext (strtod : Strtod) (s s' : Watch) : Prop :=
  ∃ a, s.proper a = true ∧ s.steady strtod a = true ∧ s.step strtod a = some s'

theorem keyed_empty : empty.Keyed := by
  refine ⟨?_, ?_, ?_, ?_, ?_, ?_, ?_, ⟨?_, ?_⟩, ⟨?_, ?_⟩⟩ <;> simp [empty, names, subs, keys, Unique]

variable {strtod : Strtod} {s s' : Watch}

/-- A steady event keeps the accounts. -/
theorem Accounted.step (h : s.Accounted strtod) (hs : s.Keyed) {a : WatchAct} (hp : s.proper a = true)
    (hst : s.steady strtod a = true) (ha : s.step strtod a = some s') : s'.Accounted strtod := by
  intro e' he' x hx hw
  obtain ⟨⟨n, d⟩, hnd⟩ := Option.isSome_iff_exists.mp hw
  cases hs.fate hp ha he' hx hnd with
  | kept e mem child addr quiet window total =>
    rw [window, total]
    exact h e mem x child hw
  | forgotten e body now kept mem child addr act mdd window total =>
    subst act
    have hg := hs.get_of_mem mem
    simp only [steady, mdd, hg, Bool.not_true, Bool.false_or, Option.all_some, List.all_eq_true] at hst
    have hx₀ := hst x child
    rw [hnd] at hx₀
    rw [window, total]
    simpa using (of_decide_eq_true (by simpa using hx₀) : (s.windowOf x).reported = 0).le
  | presented e time clock mem child addr act window total =>
    rw [total]
    cases hr : x.ri with
    | none =>
      have hx₀ := h e mem x child hw
      unfold windowOf at hx₀ ⊢
      rw [hr] at hx₀ ⊢
      show (0 : Int) ≤ _
      have : (0 : Int) ≤ s.totalOf e.2 := hx₀
      omega
    | some r =>
      rw [window r n d hr hnd]
      exact Window.reported_advance_le (h e mem x child hw)
  | created e mem act fresh window total =>
    rw [window _ hnd, total]
    exact hs.totalOf_nonneg e.2

/-- No count is negative. -/
def Counted (strtod : Strtod) (s : Watch) : Prop :=
  ∀ e ∈ s.series, ∀ x ∈ e.2.children, (mdWanted strtod x).isSome = true → 0 ≤ (s.windowOf x).reported

theorem Counted.step (h : s.Counted strtod) (hs : s.Keyed) {a : WatchAct} (hp : s.proper a = true)
    (ha : s.step strtod a = some s') : s'.Counted strtod := by
  intro e' he' x hx hw
  obtain ⟨⟨n, d⟩, hnd⟩ := Option.isSome_iff_exists.mp hw
  cases hs.fate hp ha he' hx hnd with
  | kept e mem child addr quiet window total =>
    rw [window]
    exact h e mem x child hw
  | forgotten e body now kept mem child addr act mdd window total =>
    rw [window]
    exact h e mem x child hw
  | presented e time clock mem child addr act window total =>
    cases hr : x.ri with
    | none => simp [windowOf, hr, Window.fresh]
    | some r =>
      rw [window r n d hr hnd]
      exact Window.reported_advance_nonneg (h e mem x child hw) (hs.totalOf_nonneg e.2) (mdWanted_pos hnd)
  | created e mem act fresh window total =>
    rw [window _ hnd]
    exact Int.le_refl 0

/-- What holds in every run of steady events with proper identifiers. -/
structure Books (strtod : Strtod) (s : Watch) : Prop where
  keyed : s.Keyed
  accounted : s.Accounted strtod
  counted : s.Counted strtod

theorem Books.step (h : s.Books strtod) {a : WatchAct} (hp : s.proper a = true) (hst : s.steady strtod a = true)
    (ha : s.step strtod a = some s') : s'.Books strtod :=
  ⟨h.keyed.step hp ha, h.accounted.step h.keyed hp hst ha, h.counted.step h.keyed hp ha⟩

theorem books_of_steady_run (h : Reach (· = empty) (SteadyNext strtod) s) : s.Books strtod := by
  refine h.inv (I := Books strtod) ?_ ?_
  · rintro s rfl
    exact ⟨keyed_empty, fun e he => (by cases he), fun e he => by cases he⟩
  · rintro s s' hb ⟨a, hp, hst, hstep⟩
    exact hb.step hp hst hstep

/-! ## Further points in one window -/

/-- An event other than a point of the time series `ts`, after which its subscription `x` is still there and
its total not forgotten. -/
def spares (ts : Nat) (x : RTNode) : WatchAct → Bool
  | .detect i _ _ => i ≠ ts
  | .updateTs i body _ _ => i ≠ ts || !body.has .mdd
  | .deleteTs i => i ≠ ts
  | .deleteChild i id => i ≠ ts || id ≠ x.id
  | _ => true

/-- A run from `s` with `k` further points of the time series `ts`, at which the window of its subscription
`x` does not run out after the first, among other events that spare the subscription. -/
inductive Onward (strtod : Strtod) (ts : Nat) (x : RTNode) (s : Watch) : Nat → Watch → Prop where
  | start : Onward strtod ts x s 0 s
  | point {k : Nat} {s₁ s₂ : Watch} (time : CStr) (clock : Nat → Int) : Onward strtod ts x s k s₁ →
      s₁.steady strtod (.detect ts time clock) = true → s₁.step strtod (.detect ts time clock) = some s₂ →
      (0 < k → ∀ n d, mdWanted strtod x = some (n, d) → (s₁.windowOf x).expired d (clock x.id) = false) →
      Onward strtod ts x s (k + 1) s₂
  | other {k : Nat} {s₁ s₂ : Watch} {a : WatchAct} : Onward strtod ts x s k s₁ → s₁.proper a = true →
      s₁.steady strtod a = true → spares ts x a = true → s₁.step strtod a = some s₂ → Onward strtod ts x s k s₂

/-- Only a detection sends notifications. -/
theorem step_sent_cases {a : WatchAct} (h : s.step strtod a = some s') : s'.sent = s.sent ∨
    ∃ ts t time clock, a = .detect ts time clock ∧ Assoc.get s.series ts = some t ∧ s' = s.detect strtod ts t time clock := by
  cases a with
  | detect ts time clock =>
    simp only [Watch.step, Option.bind_eq_bind, Option.bind_eq_some_iff] at h
    obtain ⟨t, ht, h⟩ := h
    split at h
    · cases h; exact .inr ⟨ts, t, time, clock, rfl, ht, rfl⟩
    · cases h
  | createTs ts obj =>
    simp only [Watch.step] at h
    split at h
    · cases h
    · cases h; exact .inl rfl
  | updateTs ts body now kept =>
    simp only [Watch.step, Option.bind_eq_bind, Option.bind_eq_some_iff] at h
    obtain ⟨t, ht, h⟩ := h
    split at h
    · cases h; exact .inl rfl
    · cases h; exact .inl rfl
  | deleteTs ts =>
    simp only [Watch.step, Option.bind_eq_bind, Option.bind_eq_some_iff] at h
    obtain ⟨t, ht, h⟩ := h
    cases h; exact .inl rfl
  | createChild ts x =>
    simp only [Watch.step, Option.bind_eq_bind, Option.bind_eq_some_iff] at h
    obtain ⟨t, ht, h⟩ := h
    split at h
    · cases h; exact .inl rfl
    · cases h
  | deleteChild ts id =>
    simp only [Watch.step, Option.bind_eq_bind, Option.bind_eq_some_iff] at h
    obtain ⟨t, ht, x, hx, h⟩ := h
    cases h; exact .inl rfl

theorem step_sent {a : WatchAct} (h : s.step strtod a = some s') : ∃ l, s'.sent = s.sent ++ l := by
  rcases step_sent_cases h with h | ⟨ts, t, time, clock, _, _, rfl⟩
  · exact ⟨[], by rw [h, List.append_nil]⟩
  · exact ⟨_, rfl⟩

/-- The subscription is still there after a point and after an event that spares it. -/
theorem stays {ts : Nat} {x : RTNode} {a : WatchAct} (h : s.step strtod a = some s')
    (ha : (∃ time clock, a = .detect ts time clock) ∨ spares ts x a = true) {e : Nat × Tracked} (he : e ∈ s.series)
    (hts : e.1 = ts) (hx : x ∈ e.2.children) : ∃ e' ∈ s'.series, e'.1 = ts ∧ x ∈ e'.2.children := by
  -- replacing the entry of a time series by one with the same children
  have hset : ∀ (i : Nat) (t t' : Tracked), Assoc.get s.series i = some t → (i = ts → x ∈ t.children → x ∈ t'.children) →
      ∃ e' ∈ Assoc.set s.series i t', e'.1 = ts ∧ x ∈ e'.2.children := by
    intro i t t' ht hc
    obtain ⟨a, b, hser, hset, _⟩ := split_series ht
    rw [hser] at he
    rcases mem_middle.mp he with rfl | hab
    · exact ⟨(i, t'), by rw [hset]; simp, hts, hc hts hx⟩
    · exact ⟨e, by rw [hset]; exact mem_middle.mpr (.inr hab), hts, hx⟩
  cases a with
  | detect i time clock =>
    simp only [Watch.step, Option.bind_eq_bind, Option.bind_eq_some_iff] at h
    obtain ⟨t, ht, h⟩ := h
    split at h
    · cases h; exact hset i t _ ht fun _ hx => hx
    · cases h
  | createTs i obj =>
    simp only [Watch.step] at h
    split at h
    · cases h
    · cases h; exact ⟨e, List.mem_cons_of_mem _ he, hts, hx⟩
  | updateTs i body now kept =>
    simp only [Watch.step, Option.bind_eq_bind, Option.bind_eq_some_iff] at h
    obtain ⟨t, ht, h⟩ := h
    split at h
    · cases h; exact ⟨e, he, hts, hx⟩
    · cases h; exact hset i t _ ht fun _ hx => hx
  | deleteTs i =>
    simp only [Watch.step, Option.bind_eq_bind, Option.bind_eq_some_iff] at h
    obtain ⟨t, ht, h⟩ := h
    cases h
    have hne : i ≠ ts := by
      rcases ha with ⟨_, _, ha⟩ | ha
      · cases ha
      · simpa [spares] using ha
    obtain ⟨a, b, hser, _, hdel⟩ := split_series ht
    rw [hser] at he
    rcases mem_middle.mp he with rfl | hab
    · exact absurd hts hne
    · exact ⟨e, by rw [hdel]; exact hab, hts, hx⟩
  | createChild i c =>
    simp only [Watch.step, Option.bind_eq_bind, Option.bind_eq_some_iff] at h
    obtain ⟨t, ht, h⟩ := h
    split at h
    · cases h
      refine hset i t _ ht fun _ hx => ?_
      have hr := roots_insertChild c (Forest.ofList t.children)
      rw [Forest.roots_ofList] at hr
      exact hr.symm.subset (List.mem_cons_of_mem c hx)
    · cases h
  | deleteChild i id =>
    simp only [Watch.step, Option.bind_eq_bind, Option.bind_eq_some_iff] at h
    obtain ⟨t, ht, c, hc, h⟩ := h
    cases h
    refine hset i t _ ht fun hi hx => List.mem_filter.mpr ⟨hx, ?_⟩
    rcases ha with ⟨_, _, ha⟩ | ha
    · cases ha
    · simp only [spares, hi, ne_eq, not_true_eq_false, decide_false, Bool.false_or, decide_not, Bool.not_eq_true',
        decide_eq_false_iff_not] at ha
      simpa using Ne.symm ha

/-- A point that fills the batch of a subscription is followed by a notification to it. -/
theorem sent_of_full {e : Nat × Tracked} {x : RTNode} {r : CStr} {n d : Int} (hb : s.Books strtod) (he : e ∈ s.series)
    (hx : x ∈ e.2.children) (hr : x.ri = some r) (hw : mdWanted strtod x = some (n, d))
    (hnu : ((subObj x).member .nu).any Json.isArray = true) (hmax : s.totalOf e.2 < intMax) (time : CStr)
    (clock : Nat → Int)
    (hfull : n ≤ s.totalOf e.2 + 1 - ((s.windowOf x).roll (s.totalOf e.2 + 1) 1 d (clock x.id)).reported) :
    ∃ l, (s.detect strtod e.1 e.2 time clock).sent = s.sent ++ l ∧ ∃ c ∈ l, c.sub = x := by
  obtain ⟨q, hq, _⟩ := hb.keyed.named e he
  obtain ⟨a, b, hser, _, _⟩ := split_series (hb.keyed.get_of_mem he)
  obtain ⟨hkd, hks, hids⟩ := hb.keyed.children_keys hser
  have hq' : (recordMissing e.2.obj time).str .ri = some q := (str_ri_recordMissing e.2.obj time).trans hq
  have hT : s.totalOf e.2 = s.mon.total q := by unfold totalOf; rw [hq]; rfl
  have hW : s.windowOf x = s.mon.window r := by unfold windowOf; rw [hr]; rfl
  have hcount := hb.counted e he x hx (by rw [hw]; rfl)
  have hnn := hb.keyed.totalOf_nonneg e.2
  have hrep : 0 ≤ ((s.windowOf x).roll (s.totalOf e.2 + 1) 1 d (clock x.id)).reported := by
    rw [Window.reported_roll]
    split <;> omega
  have hm : 0 < (mdltOf (recordMissing e.2.obj time)).length := by
    rw [mdltOf_recordMissing]
    exact length_trimTo_pos _ _ _
  obtain ⟨notice, hnotice, hsub⟩ := mdNotice_isSome hm (mdWanted_pos hw) hnu hfull (by omega)
  have hmem : notice ∈ (notifyMissingData strtod s.mon (recordMissing e.2.obj time) e.2.children 1 clock).2 := by
    refine (mem_notify_iff hq' hkd hks).mpr ⟨x, hx, r, n, d, hr, hw, ?_, ?_⟩
    · rw [← hT, ← hW]; exact hfull
    · rw [← hT, ← hW]; exact hnotice
  refine ⟨_, rfl, ?_⟩
  -- the record names the child with the address of the notification, which is `x`
  have hfind : e.2.children.find? (RTNode.hasId notice.sub) = some x := by rw [hsub, find?_hasId hids hx]
  exact ⟨_, List.mem_filterMap.mpr ⟨notice, hmem, by rw [hfind]; rfl⟩, rfl⟩

/-- After `k` further points in one window a subscription has been sent something, or `k` points are
pending, fewer than it waits for. -/
theorem pending_of_onward {ts : Nat} {x : RTNode} {r : CStr} {n d : Int} {k : Nat} (hb : s.Books strtod)
    {e : Nat × Tracked} (he : e ∈ s.series) (hts : e.1 = ts) (hx : x ∈ e.2.children) (hr : x.ri = some r)
    (hw : mdWanted strtod x = some (n, d)) (hnu : ((subObj x).member .nu).any Json.isArray = true)
    (h : Onward strtod ts x s k s') :
    s'.Books strtod ∧ ∃ l, s'.sent = s.sent ++ l ∧ ∃ e' ∈ s'.series, e'.1 = ts ∧ x ∈ e'.2.children ∧
      ((∃ c ∈ l, c.sub = x) ∨ ((k : Int) ≤ s'.totalOf e'.2 - (s'.windowOf x).reported ∧
        (0 < k → s'.totalOf e'.2 - (s'.windowOf x).reported < n))) := by
  induction h with
  | start =>
    have := hb.accounted e he x hx (by rw [hw]; rfl)
    exact ⟨hb, [], by simp, e, he, hts, hx, .inr ⟨by omega, by omega⟩⟩
  | @point k s₁ s₂ time clock h₁ hst hstep hexp ih =>
    obtain ⟨hb₁, l, hl, e₁, he₁, hts₁, hx₁, hor⟩ := ih
    have hb₂ := hb₁.step (a := .detect ts time clock) rfl hst hstep
    obtain ⟨e₂, he₂, hts₂, hx₂⟩ := stays hstep (.inl ⟨time, clock, rfl⟩) he₁ hts₁ hx₁
    obtain ⟨l', hl'⟩ := step_sent hstep
    refine ⟨hb₂, l ++ l', by rw [hl', hl, List.append_assoc], e₂, he₂, hts₂, hx₂, ?_⟩
    rcases hor with ⟨c, hc, hcx⟩ | ⟨hk, _⟩
    · exact .inl ⟨c, List.mem_append_left _ hc, hcx⟩
    have hproper : s₁.proper (.detect ts time clock) = true := rfl
    cases hb₁.keyed.fate hproper hstep he₂ hx₂ hw with
    | kept e mem child addr quiet => exact absurd (by rw [← addr, hts₂]) (quiet time clock)
    | forgotten e body now kept mem child addr act => cases act
    | created e mem act => cases act
    | presented e time' clock' mem child addr act window total state =>
      cases act
      have hee : e = e₁ := hb₁.keyed.eq_of_addr mem he₁ hts₁.symm
      subst hee
      have hacc := hb₁.accounted e mem x child (by rw [hw]; rfl)
      have hmax : s₁.totalOf e.2 < intMax := by
        simpa [steady, hb₁.keyed.get_of_mem mem] using hst
      rw [total, window r n d hr hw]
      by_cases hfull : n ≤ s₁.totalOf e.2 + 1 -
          ((s₁.windowOf x).roll (s₁.totalOf e.2 + 1) 1 d (clock x.id)).reported
      · obtain ⟨l'', hl'', c, hc, hcx⟩ := sent_of_full hb₁ mem child hr hw hnu hmax time clock hfull
        rw [← state, hl'] at hl''
        rw [← List.append_cancel_left hl''] at hc
        exact .inl ⟨c, List.mem_append_right _ hc, hcx⟩
      · right
        have hadv : (s₁.windowOf x).advance (s₁.totalOf e.2 + 1) n d (clock x.id) =
            (s₁.windowOf x).roll (s₁.totalOf e.2 + 1) 1 d (clock x.id) := congrArg Prod.fst (if_neg hfull)
        rw [hadv]
        refine ⟨?_, fun _ => by omega⟩
        -- only the first of the points may find the window run out
        rw [Window.reported_roll]
        by_cases hk0 : k = 0
        · split <;> (push_cast; omega)
        · rw [if_neg (by simp [hexp (by omega) n d hw])]
          push_cast
          omega
  | @other k s₁ s₂ a h₁ hp hst hsp hstep ih =>
    obtain ⟨hb₁, l, hl, e₁, he₁, hts₁, hx₁, hor⟩ := ih
    obtain ⟨e₂, he₂, hts₂, hx₂⟩ := stays hstep (.inr hsp) he₁ hts₁ hx₁
    obtain ⟨l', hl'⟩ := step_sent hstep
    refine ⟨hb₁.step hp hst hstep, l ++ l', by rw [hl', hl, List.append_assoc], e₂, he₂, hts₂, hx₂, ?_⟩
    rcases hor with ⟨c, hc, hcx⟩ | hk
    · exact .inl ⟨c, List.mem_append_left _ hc, hcx⟩
    cases hb₁.keyed.fate hp hstep he₂ hx₂ hw with
    | kept e mem child addr quiet window total =>
      have hee : e = e₁ := hb₁.keyed.eq_of_addr mem he₁ (by rw [← addr, hts₂, hts₁])
      subst hee
      rw [window, total]
      exact .inr hk
    | forgotten e body now kept mem child addr act mdd =>
      subst act
      have hets : e.1 = ts := addr.symm.trans hts₂
      simp [spares, hets, mdd] at hsp
    | created e mem act fresh =>
      obtain ⟨b, hb⟩ := hb₁.keyed.born x (List.mem_flatMap.mpr ⟨e₁, he₁, hx₁⟩)
      rw [Assoc.has_eq_false] at fresh
      rw [fresh] at hb
      cases hb
    | presented e time clock mem child addr act =>
      subst act
      have hets : e.1 = ts := addr.symm.trans hts₂
      simp [spares, hets] at hsp

/-- In every run in which no running total is forgotten while a subscription of the time series has accounted
for some of it, no subscription ever accounts for more than the total, and `n` further points in one
window of a subscription with threshold `n` are followed by a notification to it. -/
theorem accounted_of_steady_run (h : Reach (· = empty) (SteadyNext strtod) s) :
    s.Accounted strtod ∧ ∀ e ∈ s.series, ∀ x ∈ e.2.children, ∀ r n d, x.ri = some r → mdWanted strtod x = some (n, d) →
      ((subObj x).member .nu).any Json.isArray = true → ∀ s', Onward strtod e.1 x s n.toNat s' →
        ∃ l, s'.sent = s.sent ++ l ∧ ∃ c ∈ l, c.sub = x := by
  have hb := books_of_steady_run h
  refine ⟨hb.accounted, fun e he x hx r n d hr hw hnu s' hon => ?_⟩
  have hn := mdWanted_pos hw
  obtain ⟨_, l, hl, e', _, _, _, hc | ⟨h₁, h₂⟩⟩ := pending_of_onward hb he rfl hx hr hw hnu hon
  · exact ⟨l, hl, hc⟩
  · have := h₂ (by omega)
    omega

/-! ## Two runs -/

/-- A step of a run given by its events, those only that pass a test. -/
def stepIf (strtod : Strtod) (ok : Watch → WatchAct → Bool) (s : Watch) (a : WatchAct) : Option Watch :=
  if ok s a then s.step strtod a else none

theorem stepIf_eq_some {ok : Watch → WatchAct → Bool} {a : WatchAct} (h : s.stepIf strtod ok a = some s') :
    ok s a = true ∧ s.step strtod a = some s' := by
  unfold stepIf at h
  split at h
  · rename_i ha
    exact ⟨ha, h⟩
  · cases h

/-- A time series with the detection on. -/
def watchedTs : Obj := [(.ri, .str "29-1".toList), (.mdd, .bool true), (.mdn, .int 10)]

/-- It is created, and a subscription that wants to hear of every point. -/
def watchOne : List WatchAct := [.createTs 0 watchedTs, .createChild 0 (missingSub 1 "23-1".toList 1 [])]

theorem run_watchOne : watchOne.foldlM (stepIf (fun _ => none) fun s a => s.proper a && s.steady (fun _ => none) a) empty =
    some ⟨⟨[], []⟩, [(0, ⟨watchedTs, [missingSub 1 "23-1".toList 1 []], []⟩)], 0, [(1, 0)], 0, []⟩ := by
  rfl

theorem reach_of_run {l : List WatchAct} (h : l.foldlM (stepIf strtod fun s a => s.proper a && s.steady strtod a) empty =
    some s) : Reach (· = empty) (SteadyNext strtod) s := by
  refine Reach.of_foldlM ?_ l (.start rfl) h
  intro s a s' h
  obtain ⟨hok, hs⟩ := stepIf_eq_some h
  obtain ⟨hp, hst⟩ := Bool.and_eq_true_iff.mp hok
  exact ⟨a, hp, hst, hs⟩

/-- The first point is followed by a notification. -/
theorem accounted_of_steady_run_one : ∃ s s' : Watch, Reach (· = empty) (SteadyNext fun _ => none) s ∧
    s.Accounted (fun _ => none) ∧ Onward (fun _ => none) 0 (missingSub 1 "23-1".toList 1 []) s 1 s' ∧
      ∃ l, s'.sent = s.sent ++ l ∧ ∃ c ∈ l, c.sub = missingSub 1 "23-1".toList 1 [] := by
  have hr := reach_of_run run_watchOne
  have hw : mdWanted (fun _ => none) (missingSub 1 "23-1".toList 1 []) = some (1, 0) := by decide +kernel
  obtain ⟨hacc, hon⟩ := accounted_of_steady_run hr
  obtain ⟨s', hs'⟩ : ∃ s', Onward (fun _ => none) 0 (missingSub 1 "23-1".toList 1 [])
      ⟨⟨[], []⟩, [(0, ⟨watchedTs, [missingSub 1 "23-1".toList 1 []], []⟩)], 0, [(1, 0)], 0, []⟩ 1 s' :=
    ⟨_, Onward.point [] (fun _ => 7) .start rfl rfl (fun h => absurd h (by decide))⟩
  exact ⟨_, s', hr, hacc, hs', hon _ List.mem_cons_self _ List.mem_cons_self _ 1 0 rfl hw rfl s' hs'⟩

/-- The total is forgotten when the detection is switched off, and the count of what was reported is not. -/
theorem not_accounted_after_mdd_off : ¬ ∀ (strtod : Strtod) (s : Watch), Reach (· = empty) (Next strtod) s →
    s.Accounted strtod := by
  intro h
  have hrun : ((watchOne ++ [WatchAct.detect 0 "20240101T000000".toList fun _ => 7,
      WatchAct.updateTs 0 [(.mdd, .bool false)] "20240101T000001".toList fun _ => []]).foldlM
        (stepIf (fun _ => none) fun s a => s.proper a) empty).any (fun s : Watch => !decide (s.Accounted fun _ => none)) =
      true := by
    decide +kernel
  obtain ⟨s, hs, hc⟩ := (Option.any_eq_true _ _).mp hrun
  have hr : Reach (· = empty) (Next fun _ => none) s := by
    refine Reach.of_foldlM ?_ _ (.start rfl) hs
    intro s a s' ha
    exact ⟨a, (stepIf_eq_some ha).2⟩
  simp [h _ s hr] at hc

end Watch

end TinyIoT
