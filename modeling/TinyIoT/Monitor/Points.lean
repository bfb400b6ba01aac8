/-
Which detections a notification carries. The points a subscription has still to hear of are the newest
entries of `mdlt`, as many as its count is behind the running total, less those `mdn` dropped; its window
opened no later than the first of them was detected. This holds where a subscription is created before any
point is counted and the clock does not go back. A subscription created later starts its count at zero all
the same, and is told of points that were detected before it was there.
-/
import TinyIoT.Monitor.Reported
import Mathlib.Data.List.DropRight

namespace TinyIoT

/-! ## The newest entries -/

section Newest

variable {α : Type} {l : List α} {q x : α} {j k : Nat}

theorem mem_rtake_trimTo (ts : Obj) (h : q ∈ (trimTo ts l).rtake k) : q ∈ l.rtake k := by
  unfold trimTo at h
  split at h
  · unfold List.rtake at h ⊢
    rw [List.drop_drop, List.length_drop] at h
    exact List.drop_subset_drop_left l (by omega) h
  · exact h

theorem mem_rtake_append (h : q ∈ (l ++ [x]).rtake (k + 1)) : q = x ∨ q ∈ l.rtake k := by
  rw [List.rtake_concat_succ, List.mem_append, List.mem_singleton] at h
  exact h.symm

end Newest

theorem mdWanted_le {strtod : Strtod} {sub : RTNode} {n d : Int} (h : mdWanted strtod sub = some (n, d)) : n ≤ intMax := by
  unfold mdWanted at h
  simp only [Option.ite_none_right_eq_some, Option.some.injEq, Prod.mk.injEq] at h
  obtain ⟨_, rfl, _⟩ := h
  split
  · exact Json.valueint_le _
  · exact Int.le_of_lt (by decide)

/-- The entries of a batch are among the newest, as many as are pending. -/
theorem mem_rtake_of_mdBatch {α : Type} {l : List α} {q : α} {total before n : Int} (hn : 0 < n)
    (hp : n ≤ total - before) (hmax : total - before ≤ intMax)
    (hq : q ∈ (l.drop (mdBatch l.length total before n).1).take (mdBatch l.length total before n).2) :
    q ∈ l.rtake (total - before).toNat := by
  have hc : cInt (total - before) = total - before := cInt_eq (by unfold intMin; omega) hmax
  have hq := List.mem_of_mem_take hq
  unfold mdBatch at hq
  rw [hc] at hq
  exact List.drop_subset_drop_left l (by dsimp only; omega) hq

namespace Watch

/-! ## Conditions and the property -/

/-- A subscription is created before any point is counted; the clock is positive and does not go back. -/
def punctual (strtod : Strtod) (s : Watch) : WatchAct → Bool
  | .createChild ts x => (mdWanted strtod x).isNone || (Assoc.get s.series ts).all fun t => s.totalOf t = 0
  | .detect ts _ clock => (Assoc.get s.series ts).all fun t => t.children.all fun x => s.now ≤ clock x.id ∧ 0 < clock x.id
  | _ => true

/-- An event with proper identifiers that is punctual. -/
def PunctualNext (strtod : Strtod) (s s' : Watch) : Prop :=
  ∃ a, s.proper a = true ∧ s.punctual strtod a = true ∧ s.step strtod a = some s'

/-- What the notifications of `notify_missing_data` carry: points detected after the subscription was created,
within its duration of each other, and none of them twice. -/
structure Delivered (strtod : Strtod) (s : Watch) : Prop where
  later : ∀ c ∈ s.sent, ∃ b, Assoc.get s.born c.sub.id = some b ∧ ∀ p ∈ c.points, b < p.serial
  within : ∀ c ∈ s.sent, ∀ n d, mdWanted strtod c.sub = some (n, d) → 0 < d →
    ∀ p ∈ c.points, ∀ p' ∈ c.points, p'.clock c.sub.id - p.clock c.sub.id ≤ d
  once : s.sent.Pairwise fun c c' => c.sub.id = c'.sub.id → ∀ p ∈ c.points, ∀ p' ∈ c'.points, p.serial ≠ p'.serial

/-- The points a subscription has still to hear of. -/
def pending (s : Watch) (t : Tracked) (x : RTNode) : Int := s.totalOf t - (s.windowOf x).reported

/-- A point the subscription may be told of in a window that opened at `start`. -/
structure Fits (s : Watch) (x : RTNode) (start : Int) (p : Point) : Prop where
  later : ∀ b, Assoc.get s.born x.id = some b → b < p.serial
  opened : start ≤ p.clock x.id
  read : p.clock x.id ≤ s.now
  unsent : ∀ c ∈ s.sent, c.sub.id = x.id → ∀ q ∈ c.points, q.serial < p.serial

/-- A subscription with threshold `n` between two points. -/
structure Waiting (s : Watch) (t : Tracked) (x : RTNode) (n : Int) : Prop where
  few : s.pending t x < n
  counted : 0 ≤ (s.windowOf x).reported
  start : 0 ≤ (s.windowOf x).start ∧ (s.windowOf x).start ≤ s.now
  opened : 0 < s.pending t x → 0 < (s.windowOf x).start
  fits : ∀ p ∈ t.held.rtake (s.pending t x).toNat, s.Fits x (s.windowOf x).start p

/-- The entry of `mdlt` a detection made has its time. -/
def Entered (p : Point) (j : Json) : Prop := 0 < p.serial → j = .str p.time

/-- The numbering of the detections, and the entries of `mdlt` they made. -/
structure Serials (s : Watch) : Prop where
  now : 0 ≤ s.now
  held : ∀ e ∈ s.series, List.Forall₂ Entered e.2.held (mdltOf e.2.obj) ∧ ∀ p ∈ e.2.held, p.serial ≤ s.serial
  sent : ∀ c ∈ s.sent, ∀ p ∈ c.points, p.serial ≤ s.serial
  born : ∀ i b, Assoc.get s.born i = some b → b ≤ s.serial
  subs : ∀ c ∈ s.sent, ∃ b, Assoc.get s.born c.sub.id = some b

variable {strtod : Strtod} {s s' : Watch}

/-! ## A detection -/

/-- A new detection and the entry it makes. -/
theorem entered_newHeld {t : Tracked} (h : List.Forall₂ Entered t.held (mdltOf t.obj)) (time : CStr) (clock : Nat → Int) :
    List.Forall₂ Entered (s.newHeld t time clock) (mdltOf (recordMissing t.obj time)) := by
  rw [mdltOf_recordMissing]
  exact forall₂_trimTo _ (List.rel_append h (.cons (fun _ => rfl) .nil))

/-- The points a subscription has still to hear of when a new one is presented to it. -/
def behind (s : Watch) (t : Tracked) (x : RTNode) (d now : Int) : Int :=
  s.totalOf t + 1 - ((s.windowOf x).roll (s.totalOf t + 1) 1 d now).reported

/-- A notification of a detection goes to a subscription whose batch is full, and carries its newest
entries. -/
theorem mem_newSent {e : Nat × Tracked} (hs : s.Keyed) (he : e ∈ s.series) {time : CStr} {clock : Nat → Int}
    (hent : List.Forall₂ Entered e.2.held (mdltOf e.2.obj)) {c : Sent}
    (hc : c ∈ s.newSent strtod e.2 time clock) : ∃ r n d, c.sub ∈ e.2.children ∧ c.sub.ri = some r ∧ mdWanted strtod c.sub = some (n, d) ∧ n ≤ s.behind e.2 c.sub d (clock c.sub.id) ∧
      ∀ q ∈ c.points, s.behind e.2 c.sub d (clock c.sub.id) ≤ intMax →
        q ∈ (e.2.held ++ [Point.mk (s.serial + 1) time clock]).rtake (s.behind e.2 c.sub d (clock c.sub.id)).toNat := by
  obtain ⟨q, hq, _⟩ := hs.named e he
  obtain ⟨a, b, hser, _, _⟩ := split_series (hs.get_of_mem he)
  obtain ⟨hkd, hks, hids⟩ := hs.children_keys hser
  have hq' : (recordMissing e.2.obj time).str .ri = some q := (str_ri_recordMissing e.2.obj time).trans hq
  have hT : s.totalOf e.2 = s.mon.total q := by unfold totalOf; rw [hq]; rfl
  obtain ⟨notice, hnotice, hmap⟩ := List.mem_filterMap.mp hc
  obtain ⟨x, hx, r, n, d, hr, hw, hfull, hn⟩ := (mem_notify_iff hq' hkd hks).mp hnotice
  have hW : s.windowOf x = s.mon.window r := by unfold windowOf; rw [hr]; rfl
  rw [← hT, ← hW] at hfull hn
  obtain ⟨sub, hsub, rfl⟩ := Option.map_eq_some_iff.mp hmap
  simp only [mdNotice, Option.ite_none_right_eq_some, Option.some.injEq] at hn
  obtain ⟨_, hn⟩ := hn
  have hxs : sub = x := by
    have hsid : sub.id = notice.sub := by simpa [RTNode.hasId] using List.find?_some hsub
    refine List.inj_on_of_nodup_map hids (List.mem_of_find?_eq_some hsub) hx (hsid.trans ?_)
    rw [← hn]
    rfl
  subst hxs
  refine ⟨r, n, d, hx, hr, hw, hfull, fun p hp hmax => ?_⟩
  have hlen' : (s.newHeld e.2 time clock).length = (mdltOf (recordMissing e.2.obj time)).length :=
    (entered_newHeld hent time clock).length_eq
  rw [← hn] at hp
  rw [← hlen'] at hp
  exact mem_rtake_trimTo e.2.obj (mem_rtake_of_mdBatch (mdWanted_pos hw) hfull hmax hp)

section Presented

variable {t : Tracked} {x : RTNode} {n d now : Int}

/-- Rolling the window at a new point: it goes on with one point more, or starts over. -/
theorem behind_cases (d now : Int) (hw : s.Waiting t x n) (_hn : 0 < n) :
    s.behind t x d now ≤ n ∧
      (((s.windowOf x).expired d now = false ∧ s.behind t x d now = s.pending t x + 1) ∨
        (s.behind t x d now ≤ 1 ∧ ((s.windowOf x).roll (s.totalOf t + 1) 1 d now).start = now)) := by
  have hfew := hw.few
  unfold behind
  unfold pending at hfew ⊢
  rw [Window.reported_roll, Window.start_roll]
  cases hex : (s.windowOf x).expired d now with
  | false =>
    simp only [Bool.false_eq_true, false_and, if_false]
    exact ⟨by omega, .inl ⟨trivial, by omega⟩⟩
  | true =>
    simp only [true_and, true_or, if_true]
    split
    · exact ⟨by omega, .inr ⟨by omega, trivial⟩⟩
    · exact ⟨by omega, .inr ⟨by omega, trivial⟩⟩

/-- The newest entries at a new point, as many as the subscription is behind: none was sent to it, and its
window was open when they were detected. -/
theorem newest_fits (hw : s.Waiting t x n) (hs : s.Serials) (hn : 0 < n) {time : CStr} {clock : Nat → Int}
    (hnow : s.now ≤ clock x.id) {q : Point}
    (hq : q ∈ (t.held ++ [Point.mk (s.serial + 1) time clock]).rtake (s.behind t x d (clock x.id)).toNat) :
    (∀ b, Assoc.get s.born x.id = some b → b < q.serial) ∧
      ((s.windowOf x).roll (s.totalOf t + 1) 1 d (clock x.id)).start ≤ q.clock x.id ∧ q.clock x.id ≤ clock x.id ∧
      ∀ c ∈ s.sent, c.sub.id = x.id → ∀ p ∈ c.points, p.serial < q.serial := by
  obtain ⟨_, hb⟩ := behind_cases d (clock x.id) hw hn
  obtain ⟨hst₀, hst⟩ := hw.start
  by_cases hpos : 0 < s.behind t x d (clock x.id)
  · have hne : (s.behind t x d (clock x.id)).toNat ≠ 0 := by omega
    obtain ⟨k, hk⟩ := Nat.exists_eq_succ_of_ne_zero hne
    rw [hk] at hq
    rcases mem_rtake_append hq with rfl | hq
    · -- the new point
      refine ⟨fun b hb => Nat.lt_succ_of_le (hs.born _ b hb), ?_, Int.le_refl _, fun c hc _ p hp =>
        Nat.lt_succ_of_le (hs.sent c hc p hp)⟩
      rw [Window.start_roll]
      split
      · exact Int.le_refl _
      · exact Int.le_trans hst hnow
    · -- a point that was pending, so the window did not run out
      have hkpos : k ≠ 0 := by
        rintro rfl
        simp at hq
      rcases hb with ⟨hex, hb⟩ | ⟨hb, _⟩
      · have hkp : k = (s.pending t x).toNat := by omega
        rw [hkp] at hq
        have hf := hw.fits q hq
        have hopen := hw.opened (by omega)
        refine ⟨hf.later, ?_, Int.le_trans hf.read hnow, hf.unsent⟩
        rw [Window.start_roll, if_neg (by simp [hex]; omega)]
        exact hf.opened
      · omega
  · rw [show (s.behind t x d (clock x.id)).toNat = 0 by omega] at hq
    simp at hq

/-- A window that is open when a new point is presented opened at most its duration before. -/
theorem start_roll_within (now : Int) (hw : s.Waiting t x n) (hd : 0 < d) :
    now - ((s.windowOf x).roll (s.totalOf t + 1) 1 d now).start ≤ d := by
  obtain ⟨hst₀, _⟩ := hw.start
  rw [Window.start_roll]
  split
  · omega
  · rename_i h
    simp only [not_or, Window.expired, decide_eq_true_eq, not_and, not_lt] at h
    have := h.1 (by omega) hd
    omega

end Presented

/-! ## What every event keeps -/

theorem foldl_max_le {l : List RTNode} {f : RTNode → Int} (n : Int) : n ≤ l.foldl (fun n x => max n (f x)) n ∧
    ∀ x ∈ l, f x ≤ l.foldl (fun n x => max n (f x)) n := by
  induction l generalizing n with
  | nil => exact ⟨Int.le_refl n, fun x hx => by cases hx⟩
  | cons y l ih =>
    obtain ⟨h₁, h₂⟩ := ih (max n (f y))
    rw [List.foldl_cons]
    refine ⟨by omega, fun x hx => ?_⟩
    rcases List.mem_cons.mp hx with rfl | hx
    · omega
    · exact h₂ x hx

/-- Numbers and clock readings grow, and no record of a creation is lost. -/
theorem step_grows {a : WatchAct} (h : s.step strtod a = some s') :
    s.serial ≤ s'.serial ∧ s.now ≤ s'.now ∧ ∀ i b, Assoc.get s.born i = some b → Assoc.get s'.born i = some b := by
  have hrefl : s.serial ≤ s.serial ∧ s.now ≤ s.now ∧ ∀ i b, Assoc.get s.born i = some b → Assoc.get s.born i = some b :=
    ⟨Nat.le_refl _, Int.le_refl _, fun _ _ h => h⟩
  cases a with
  | detect ts time clock =>
    simp only [Watch.step, Option.bind_eq_bind, Option.bind_eq_some_iff] at h
    obtain ⟨t, ht, h⟩ := h
    split at h
    · cases h
      exact ⟨Nat.le_succ _, (foldl_max_le _).1, fun _ _ h => h⟩
    · cases h
  | createTs ts obj =>
    simp only [Watch.step] at h
    split at h
    · cases h
    · cases h; exact hrefl
  | updateTs ts body now kept =>
    simp only [Watch.step, Option.bind_eq_bind, Option.bind_eq_some_iff] at h
    obtain ⟨t, ht, h⟩ := h
    split at h
    · cases h; exact hrefl
    · cases h; exact hrefl
  | deleteTs ts =>
    simp only [Watch.step, Option.bind_eq_bind, Option.bind_eq_some_iff] at h
    obtain ⟨t, ht, h⟩ := h
    cases h; exact hrefl
  | createChild ts x =>
    simp only [Watch.step, Option.bind_eq_bind, Option.bind_eq_some_iff] at h
    obtain ⟨t, ht, h⟩ := h
    split at h
    · rename_i hx
      cases h
      refine ⟨Nat.le_refl _, Int.le_refl _, fun i b hb => ?_⟩
      have hne : x.id ≠ i := by
        rintro rfl
        have := Assoc.has_iff.mpr ⟨b, hb⟩
        simp [hx.2] at this
      simpa [hne] using hb
    · cases h
  | deleteChild ts id =>
    simp only [Watch.step, Option.bind_eq_bind, Option.bind_eq_some_iff] at h
    obtain ⟨t, ht, x, hx, h⟩ := h
    cases h; exact hrefl

theorem entered_none (l : List Json) : List.Forall₂ Entered (l.map fun _ => Point.none) l :=
  List.forall₂_map_left_iff.mpr (List.forall₂_same.mpr fun _ _ h => absurd h (Nat.lt_irrefl 0))

/-- The entries of `mdlt` and their detections after one time series is changed. -/
theorem Serials.set {ts n : Nat} {t t' : Tracked} (hs : s.Serials) (ht : Assoc.get s.series ts = some t) (hn : s.serial ≤ n)
    (hent : List.Forall₂ Entered t'.held (mdltOf t'.obj)) (hheld : ∀ p ∈ t'.held, p.serial ≤ n) :
    ∀ e ∈ Assoc.set s.series ts t', List.Forall₂ Entered e.2.held (mdltOf e.2.obj) ∧ ∀ p ∈ e.2.held, p.serial ≤ n := by
  obtain ⟨a, b, hser, hset, _⟩ := split_series ht
  intro e he
  rw [hset] at he
  rcases mem_middle.mp he with rfl | hab
  · exact ⟨hent, hheld⟩
  · obtain ⟨h₁, h₂⟩ := hs.held e (by rw [hser]; exact mem_middle.mpr (.inr hab))
    exact ⟨h₁, fun p hp => Nat.le_trans (h₂ p hp) hn⟩

theorem Serials.detect (hs : s.Serials) (hk : s.Keyed) {ts : Nat} {t : Tracked} (ht : Assoc.get s.series ts = some t)
    (time : CStr) (clock : Nat → Int) : (s.detect strtod ts t time clock).Serials := by
  obtain ⟨a, b, hser, _, _⟩ := split_series ht
  obtain ⟨h₁, h₂⟩ := hs.held (ts, t) (by rw [hser]; simp)
  have hheld : ∀ p ∈ s.newHeld t time clock, p.serial ≤ s.serial + 1 := by
    intro p hp
    rcases List.mem_append.mp (mem_trimTo hp) with hp | hp
    · exact Nat.le_succ_of_le (h₂ p hp)
    · cases List.mem_singleton.mp hp
      exact Nat.le_refl _
  refine ⟨Int.le_trans hs.now (foldl_max_le _).1, ?_, ?_, fun i b hb => Nat.le_succ_of_le (hs.born i b hb), ?_⟩
  · exact hs.set ht (Nat.le_succ _) (entered_newHeld h₁ time clock) hheld
  · intro c hc p hp
    rcases List.mem_append.mp hc with hc | hc
    · exact Nat.le_succ_of_le (hs.sent c hc p hp)
    · obtain ⟨n, _, hn⟩ := List.mem_filterMap.mp hc
      obtain ⟨x, _, rfl⟩ := Option.map_eq_some_iff.mp hn
      exact hheld p (List.mem_of_mem_drop (List.mem_of_mem_take hp))
  · intro c hc
    rcases List.mem_append.mp hc with hc | hc
    · exact hs.subs c hc
    · obtain ⟨n, _, hn⟩ := List.mem_filterMap.mp hc
      obtain ⟨x, hx, rfl⟩ := Option.map_eq_some_iff.mp hn
      exact hk.born x ((mem_subs hser).mpr (.inl (List.mem_of_find?_eq_some hx)))

theorem Serials.step (hs : s.Serials) (hk : s.Keyed) {a : WatchAct} (h : s.step strtod a = some s') : s'.Serials := by
  cases a with
  | detect ts time clock =>
    simp only [Watch.step, Option.bind_eq_bind, Option.bind_eq_some_iff] at h
    obtain ⟨t, ht, h⟩ := h
    split at h
    · cases h; exact hs.detect hk ht time clock
    · cases h
  | createTs ts obj =>
    simp only [Watch.step] at h
    split at h
    · cases h
    · cases h
      refine ⟨hs.now, fun e he => ?_, hs.sent, hs.born, hs.subs⟩
      rcases List.mem_cons.mp he with rfl | he
      · refine ⟨entered_none _, fun p hp => ?_⟩
        obtain ⟨_, _, rfl⟩ := List.mem_map.mp hp
        exact Nat.zero_le _
      · exact hs.held e he
  | updateTs ts body now kept =>
    simp only [Watch.step, Option.bind_eq_bind, Option.bind_eq_some_iff] at h
    obtain ⟨t, ht, h⟩ := h
    split at h
    · cases h; exact hs
    · rename_i obj hu
      cases h
      obtain ⟨a, b, hser, _, _⟩ := split_series ht
      obtain ⟨h₁, h₂⟩ := hs.held (ts, t) (by rw [hser]; simp)
      refine ⟨hs.now, hs.set ht (Nat.le_refl _) ?_ ?_, hs.sent, hs.born, hs.subs⟩
      · dsimp only
        split
        · exact entered_none _
        · rename_i hoff
          rw [(updatedTs_ok hu).2 (by simpa using hoff)]
          exact h₁
      · intro p hp
        dsimp only at hp
        split at hp
        · obtain ⟨_, _, rfl⟩ := List.mem_map.mp hp
          exact Nat.zero_le _
        · exact h₂ p hp
  | deleteTs ts =>
    simp only [Watch.step, Option.bind_eq_bind, Option.bind_eq_some_iff] at h
    obtain ⟨t, ht, h⟩ := h
    cases h
    exact ⟨hs.now, fun e he => hs.held e (Assoc.mem_of_mem_del he), hs.sent, hs.born, hs.subs⟩
  | createChild ts x =>
    simp only [Watch.step, Option.bind_eq_bind, Option.bind_eq_some_iff] at h
    obtain ⟨t, ht, h⟩ := h
    split at h
    · cases h
      obtain ⟨a, b, hser, _, _⟩ := split_series ht
      obtain ⟨h₁, h₂⟩ := hs.held (ts, t) (by rw [hser]; simp)
      refine ⟨hs.now, hs.set ht (Nat.le_refl _) h₁ h₂, hs.sent, fun i b hb => ?_, fun c hc => ?_⟩
      · simp only [Assoc.get_cons] at hb
        split at hb
        · cases hb; exact Nat.le_refl _
        · exact hs.born i b hb
      · obtain ⟨b, hb⟩ := hs.subs c hc
        simp only [Assoc.get_cons]
        split
        · exact ⟨_, rfl⟩
        · exact ⟨b, hb⟩
    · cases h
  | deleteChild ts id =>
    simp only [Watch.step, Option.bind_eq_bind, Option.bind_eq_some_iff] at h
    obtain ⟨t, ht, x, hx, h⟩ := h
    cases h
    obtain ⟨a, b, hser, _, _⟩ := split_series ht
    obtain ⟨h₁, h₂⟩ := hs.held (ts, t) (by rw [hser]; simp)
    exact ⟨hs.now, hs.set ht (Nat.le_refl _) h₁ h₂, hs.sent, hs.born, hs.subs⟩

theorem serials_empty : empty.Serials := by
  refine ⟨Int.le_refl 0, ?_, ?_, ?_, ?_⟩ <;> simp [empty]

/-! ## The invariant of a run -/

/-- Every subscription for missing points is waiting. -/
def AllWaiting (strtod : Strtod) (s : Watch) : Prop :=
  ∀ e ∈ s.series, ∀ x ∈ e.2.children, ∀ r n d, x.ri = some r → mdWanted strtod x = some (n, d) → s.Waiting e.2 x n

/-- A subscription that nothing happens to goes on waiting. -/
theorem Waiting.kept {a : WatchAct} {t t' : Tracked} {x : RTNode} {n : Int} (hw : s.Waiting t x n)
    (h : s.step strtod a = some s') (hb : ∃ b, Assoc.get s.born x.id = some b) (window : s'.windowOf x = s.windowOf x)
    (total : s'.totalOf t' = s.totalOf t) (held : t'.held = t.held) (sent : ∀ r ∈ s'.sent, r ∈ s.sent ∨ r.sub.id ≠ x.id) :
    s'.Waiting t' x n := by
  obtain ⟨_, hnow, hborn⟩ := step_grows h
  have hp : s'.pending t' x = s.pending t x := by
    unfold pending
    rw [window, total]
  refine ⟨by rw [hp]; exact hw.few, by rw [window]; exact hw.counted, ?_, ?_, ?_⟩
  · rw [window]
    exact ⟨hw.start.1, Int.le_trans hw.start.2 hnow⟩
  · rw [hp, window]
    exact hw.opened
  · rw [hp, held, window]
    intro p hpm
    have hf := hw.fits p hpm
    obtain ⟨b₀, hb₀⟩ := hb
    refine ⟨fun b hb => ?_, hf.opened, Int.le_trans hf.read hnow, fun c hc hcx => ?_⟩
    · rw [hborn _ _ hb₀] at hb
      cases hb
      exact hf.later _ hb₀
    · rcases sent c hc with hc | hc
      · exact hf.unsent c hc hcx
      · exact absurd hcx hc

/-- A subscription with nothing pending waits. -/
theorem Waiting.of_pending_nonpos {t : Tracked} {x : RTNode} {n : Int} (hn : 0 < n) (hp : s.pending t x ≤ 0)
    (hc : 0 ≤ (s.windowOf x).reported) (hst : 0 ≤ (s.windowOf x).start ∧ (s.windowOf x).start ≤ s.now) :
    s.Waiting t x n := by
  refine ⟨by omega, hc, hst, fun h => by omega, fun p hpm => ?_⟩
  rw [show (s.pending t x).toNat = 0 by omega] at hpm
  simp at hpm

/-- A subscription that is presented a new total goes on waiting. -/
theorem Waiting.presented {e e' : Nat × Tracked} {x : RTNode} {n d : Int} {time : CStr} {clock : Nat → Int}
    (hk : s.Keyed) (hs : s.Serials) (he : e ∈ s.series) (hx : x ∈ e.2.children)
    (hwant : mdWanted strtod x = some (n, d)) (hw : s.Waiting e.2 x n) (hnow : s.now ≤ clock x.id) (hpos : 0 < clock x.id)
    (hs' : s' = s.detect strtod e.1 e.2 time clock)
    (window : s'.windowOf x = (s.windowOf x).advance (s.totalOf e.2 + 1) n d (clock x.id))
    (total : s'.totalOf e'.2 = s.totalOf e.2 + 1)
    (held : e'.2.held = trimTo e.2.obj (e.2.held ++ [⟨s.serial + 1, time, clock⟩])) : s'.Waiting e'.2 x n := by
  have hn := mdWanted_pos hwant
  obtain ⟨hle, _⟩ := behind_cases d (clock x.id) hw hn
  have hread : clock x.id ≤ s'.now := by
    rw [hs']
    exact (foldl_max_le s.now).2 x hx
  have hcount : 0 ≤ ((s.windowOf x).roll (s.totalOf e.2 + 1) 1 d (clock x.id)).reported := by
    have := hw.counted
    have := hk.totalOf_nonneg e.2
    rw [Window.reported_roll]
    split <;> omega
  have hstart : 0 < ((s.windowOf x).roll (s.totalOf e.2 + 1) 1 d (clock x.id)).start ∧
      ((s.windowOf x).roll (s.totalOf e.2 + 1) 1 d (clock x.id)).start ≤ s'.now := by
    obtain ⟨h₁, h₂⟩ := hw.start
    rw [Window.start_roll]
    split
    · exact ⟨hpos, hread⟩
    · rename_i h
      exact ⟨by omega, by omega⟩
  by_cases hfull : n ≤ s.behind e.2 x d (clock x.id)
  · -- the batch is given, nothing is pending and the window is closed
    have hadv : s'.windowOf x = ⟨((s.windowOf x).roll (s.totalOf e.2 + 1) 1 d (clock x.id)).reported + n, 0⟩ :=
      window.trans (congrArg Prod.fst (if_pos hfull))
    refine .of_pending_nonpos hn ?_ ?_ ?_
    · unfold pending
      rw [hadv, total]
      unfold behind at hle
      dsimp only
      omega
    · rw [hadv]
      dsimp only
      omega
    · rw [hadv]
      exact ⟨Int.le_refl 0, by dsimp only; omega⟩
  · -- the point stays pending, in the window it is in
    have hadv : s'.windowOf x = (s.windowOf x).roll (s.totalOf e.2 + 1) 1 d (clock x.id) :=
      window.trans (congrArg Prod.fst (if_neg hfull))
    have hp : s'.pending e'.2 x = s.behind e.2 x d (clock x.id) := by
      unfold pending behind
      rw [hadv, total]
    refine ⟨by omega, by rw [hadv]; exact hcount, by rw [hadv]; exact ⟨Int.le_of_lt hstart.1, hstart.2⟩,
      fun _ => by rw [hadv]; exact hstart.1, fun p hpm => ?_⟩
    rw [hp, held] at hpm
    obtain ⟨h₁, h₂, h₃, h₄⟩ := newest_fits hw hs hn hnow (mem_rtake_trimTo e.2.obj hpm)
    refine ⟨?_, by rw [hadv]; exact h₂, Int.le_trans h₃ hread, fun c hc hcx => ?_⟩
    · rw [hs']
      exact h₁
    · rw [hs'] at hc
      rcases List.mem_append.mp hc with hc | hc
      · exact h₄ c hc hcx
      · -- a new notification to it would mean that its batch was full
        obtain ⟨r', n', d', hc', hr', hw', hfull', _⟩ := mem_newSent hk he (hs.held e he).1 hc
        obtain ⟨a, b, hser, _, _⟩ := split_series (hk.get_of_mem he)
        have hcx : c.sub = x := List.inj_on_of_nodup_map (hk.children_keys hser).2.2 hc' hx hcx
        rw [hcx] at hfull' hw'
        rw [hwant] at hw'
        cases hw'
        exact absurd hfull' hfull

theorem AllWaiting.step (hw : s.AllWaiting strtod) (hk : s.Keyed) (hs : s.Serials) {a : WatchAct}
    (hp : s.proper a = true) (hpn : s.punctual strtod a = true) (h : s.step strtod a = some s') :
    s'.AllWaiting strtod := by
  intro e' he' x hx r n d hr hwant
  have hborn : ∀ e ∈ s.series, x ∈ e.2.children → ∃ b, Assoc.get s.born x.id = some b := fun e he hxe =>
    hk.born x (List.mem_flatMap.mpr ⟨e, he, hxe⟩)
  cases hk.fate hp h he' hx hwant with
  | kept e mem child addr quiet window total held sent =>
    exact (hw e mem x child r n d hr hwant).kept h (hborn e mem child) window total held sent
  | forgotten e body now kept mem child addr act mdd window total sent =>
    have hwx := hw e mem x child r n d hr hwant
    have hc := hwx.counted
    refine .of_pending_nonpos (mdWanted_pos hwant) ?_ (by rw [window]; exact hc) ?_
    · unfold pending
      rw [window, total]
      omega
    · rw [window]
      exact ⟨hwx.start.1, Int.le_trans hwx.start.2 (step_grows h).2.1⟩
  | presented e time clock mem child addr act window total state held =>
    subst act
    simp only [punctual, hk.get_of_mem mem, Option.all_some, List.all_eq_true] at hpn
    obtain ⟨hnow, hpos⟩ := of_decide_eq_true (hpn x child)
    exact .presented hk hs mem child hwant (hw e mem x child r n d hr hwant) hnow hpos state
      (window r n d hr hwant) total held
  | created e mem act fresh window total born sent =>
    subst act
    simp only [punctual, hwant, Option.isNone_some, Bool.false_or, hk.get_of_mem mem, Option.all_some,
      decide_eq_true_eq] at hpn
    have hnow := Int.le_trans hs.now (step_grows h).2.1
    refine .of_pending_nonpos (mdWanted_pos hwant) ?_ ?_ ?_
    · unfold pending
      rw [window _ hwant, total, hpn]
      exact Int.le_refl 0
    · rw [window _ hwant]
      exact Int.le_refl 0
    · rw [window _ hwant]
      exact ⟨Int.le_refl 0, hnow⟩

/-- The notifications a call makes, by address. -/
theorem notify_subs {m : Monitor} {obj : Obj} {l : List RTNode} {clock : Nat → Int} :
    ((notifyMissingData strtod m obj l 1 clock).2.map Notice.sub).Sublist (l.map RTNode.id) := by
  unfold notifyMissingData
  split
  · exact List.nil_sublist _
  · exact visitChildren_subs _ _

/-- The notifications of one detection go to different subscriptions. -/
theorem pairwise_newSent {e : Nat × Tracked} (hk : s.Keyed) (he : e ∈ s.series) (time : CStr) (clock : Nat → Int) :
    (s.newSent strtod e.2 time clock).Pairwise fun c c' => c.sub.id ≠ c'.sub.id := by
  obtain ⟨a, b, hser, _, _⟩ := split_series (hk.get_of_mem he)
  have hsub : ((notifyMissingData strtod s.mon (recordMissing e.2.obj time) e.2.children 1 clock).2.map Notice.sub).Sublist
      (e.2.children.map RTNode.id) := notify_subs
  have hd := List.pairwise_map.mp ((hk.children_keys hser).2.2.sublist hsub)
  refine List.pairwise_filterMap.mpr (hd.imp fun {m m'} hne c hc c' hc' => ?_)
  obtain ⟨x, hx, rfl⟩ := Option.map_eq_some_iff.mp hc
  obtain ⟨x', hx', rfl⟩ := Option.map_eq_some_iff.mp hc'
  have h₁ : x.id = m.sub := by simpa [RTNode.hasId] using List.find?_some hx
  have h₂ : x'.id = m'.sub := by simpa [RTNode.hasId] using List.find?_some hx'
  show x.id ≠ x'.id
  rw [h₁, h₂]
  exact hne

theorem Delivered.detect {e : Nat × Tracked} {time : CStr} {clock : Nat → Int} (hd : s.Delivered strtod) (hk : s.Keyed)
    (hs : s.Serials) (hw : s.AllWaiting strtod) (he : e ∈ s.series)
    (hnow : ∀ x ∈ e.2.children, s.now ≤ clock x.id) : (s.detect strtod e.1 e.2 time clock).Delivered strtod := by
  -- what a new notification carries
  have hnew : ∀ c ∈ s.newSent strtod e.2 time clock, c.sub ∈ e.2.children ∧
      ∃ n d, mdWanted strtod c.sub = some (n, d) ∧ s.Waiting e.2 c.sub n ∧ ∀ q ∈ c.points,
        (∀ b, Assoc.get s.born c.sub.id = some b → b < q.serial) ∧
        ((s.windowOf c.sub).roll (s.totalOf e.2 + 1) 1 d (clock c.sub.id)).start ≤ q.clock c.sub.id ∧
        q.clock c.sub.id ≤ clock c.sub.id ∧
        ∀ c' ∈ s.sent, c'.sub.id = c.sub.id → ∀ p ∈ c'.points, p.serial < q.serial := by
    intro c hc
    obtain ⟨r, n, d, hx, hr, hwant, hfull, hpts⟩ := mem_newSent hk he (hs.held e he).1 hc
    have hwx := hw e he c.sub hx r n d hr hwant
    obtain ⟨hle, _⟩ := behind_cases d (clock c.sub.id) hwx (mdWanted_pos hwant)
    refine ⟨hx, n, d, hwant, hwx, fun q hq => ?_⟩
    exact newest_fits hwx hs (mdWanted_pos hwant) (hnow _ hx) (hpts q hq (Int.le_trans hle (mdWanted_le hwant)))
  refine ⟨fun c hc => ?_, fun c hc n d hwant hdur p hp p' hp' => ?_, ?_⟩
  · rcases List.mem_append.mp hc with hc | hc
    · exact hd.later c hc
    · obtain ⟨hx, n, d, hwant, hwx, hpts⟩ := hnew c hc
      obtain ⟨b, hb⟩ := hk.born c.sub (List.mem_flatMap.mpr ⟨e, he, hx⟩)
      exact ⟨b, hb, fun q hq => (hpts q hq).1 b hb⟩
  · rcases List.mem_append.mp hc with hc | hc
    · exact hd.within c hc n d hwant hdur p hp p' hp'
    · obtain ⟨hx, n', d', hwant', hwx, hpts⟩ := hnew c hc
      rw [hwant] at hwant'
      cases hwant'
      obtain ⟨_, h₁, _, _⟩ := hpts p hp
      obtain ⟨_, _, h₂, _⟩ := hpts p' hp'
      have h₃ := start_roll_within (clock c.sub.id) hwx hdur
      omega
  · refine List.pairwise_append.mpr ⟨hd.once, ?_, fun c hc c' hc' hcc p hp p' hp' => ?_⟩
    · exact (pairwise_newSent hk he time clock).imp fun hne heq => absurd heq hne
    · obtain ⟨_, n, d, _, _, hpts⟩ := hnew c' hc'
      exact Nat.ne_of_lt ((hpts p' hp').2.2.2 c hc hcc p hp)

theorem Delivered.step (hd : s.Delivered strtod) (hk : s.Keyed) (hs : s.Serials) (hw : s.AllWaiting strtod) {a : WatchAct}
    (hpn : s.punctual strtod a = true) (h : s.step strtod a = some s') : s'.Delivered strtod := by
  rcases step_sent_cases h with hsent | ⟨ts, t, time, clock, rfl, ht, rfl⟩
  · refine ⟨fun c hc => ?_, ?_, ?_⟩
    · rw [hsent] at hc
      obtain ⟨b, hb, hp⟩ := hd.later c hc
      exact ⟨b, (step_grows h).2.2 _ _ hb, hp⟩
    · rw [hsent]
      exact hd.within
    · rw [hsent]
      exact hd.once
  · have hmem : (ts, t) ∈ s.series := Assoc.mem_of_get ht
    refine Delivered.detect hd hk hs hw hmem fun x hx => ?_
    simp only [punctual, ht, Option.all_some, List.all_eq_true] at hpn
    exact (of_decide_eq_true (hpn x hx)).1

/-- In every run in which no subscription is created after a point of its time series was counted, and the
clock is positive and does not go back, every notification carries points detected after the subscription
was created, within its duration of each other, and no point is carried to it twice. -/
theorem delivered_of_punctual_run (h : Reach (· = empty) (PunctualNext strtod) s) : s.Delivered strtod := by
  have hinv : s.Keyed ∧ s.Serials ∧ s.AllWaiting strtod ∧ s.Delivered strtod := by
    refine h.inv (I := fun s => s.Keyed ∧ s.Serials ∧ s.AllWaiting strtod ∧ s.Delivered strtod) ?_ ?_
    · rintro s rfl
      refine ⟨keyed_empty, serials_empty, ?_, ⟨?_, ?_, ?_⟩⟩ <;> simp [empty, AllWaiting]
    · rintro s s' ⟨hk, hs, hw, hd⟩ ⟨a, hp, hpn, hstep⟩
      exact ⟨hk.step hp hstep, hs.step hk hstep, hw.step hk hs hp hpn hstep, hd.step hk hs hw hpn hstep⟩
  exact hinv.2.2.2

/-! ## Two runs -/

/-- `strtod` on a string of digits and what follows them. -/
def digitsStrtod : Strtod := fun s =>
  let ds := s.takeWhile Char.isDigit
  if ds.isEmpty then none else some (ds.foldl (fun n c => 10 * n + (c.toNat - '0'.toNat : Nat)) 0, s.drop ds.length)

/-- A subscription that wants to hear of two points within ten seconds. -/
def pairSub : RTNode := missingSub 1 "23-1".toList 2 [(.other "dur".toList, .str "PT10S".toList)]

/-- Two points, four seconds apart. -/
def twoPoints : List WatchAct :=
  [.detect 0 "20240101T000000".toList fun _ => 3000000, .detect 0 "20240101T000004".toList fun _ => 7000000]

/-- The subscription is there from the start, and is told of both points. -/
theorem delivered_of_punctual_run_two : ∃ s : Watch, Reach (· = empty) (PunctualNext digitsStrtod) s ∧
    s.sent.map (fun c => c.points.map Point.serial) = [[1, 2]] ∧ s.Delivered digitsStrtod := by
  have hrun : ((WatchAct.createTs 0 watchedTs :: .createChild 0 pairSub :: twoPoints).foldlM
      (stepIf digitsStrtod fun s a => s.proper a && s.punctual digitsStrtod a) empty).any
      (fun s : Watch => decide (s.sent.map (fun c => c.points.map Point.serial) = [[1, 2]])) = true := by decide +kernel
  obtain ⟨s, hs, hc⟩ := (Option.any_eq_true _ _).mp hrun
  have hr : Reach (· = empty) (PunctualNext digitsStrtod) s := by
    refine Reach.of_foldlM ?_ _ (.start rfl) hs
    intro s a s' h
    obtain ⟨hok, hstep⟩ := stepIf_eq_some h
    obtain ⟨hp, hpn⟩ := Bool.and_eq_true_iff.mp hok
    exact ⟨a, hp, hpn, hstep⟩
  exact ⟨s, hr, of_decide_eq_true hc, delivered_of_punctual_run hr⟩

/-- An instance of the time series, so that its points are counted. -/
def someTsi : RTNode := ⟨2, .tsi, "i".toList, "i".toList, [(.ri, .str "30-1".toList)], [], [], 0⟩

/-- The first point is detected before the subscription is created, and it is told of it. -/
theorem told_of_earlier_point : ¬ ∀ (strtod : Strtod) (s : Watch), Reach (· = empty) (Next strtod) s →
    ∀ c ∈ s.sent, ∀ n d, mdWanted strtod c.sub = some (n, d) → 0 < d →
      ∃ b, Assoc.get s.born c.sub.id = some b ∧ ∀ p ∈ c.points, b < p.serial := by
  intro h
  have hrun : ([WatchAct.createTs 0 watchedTs, .createChild 0 someTsi,
      .detect 0 "20240101T000000".toList fun _ => 3000000, .createChild 0 pairSub,
      .detect 0 "20240101T000004".toList fun _ => 7000000].foldlM (stepIf digitsStrtod fun s a => s.proper a) empty).any
      (fun s : Watch => s.sent.any fun c => decide (mdWanted digitsStrtod c.sub = some (2, 10000000)) &&
        c.points.any fun p => (Assoc.get s.born c.sub.id).any fun b => p.serial ≤ b) = true := by decide +kernel
  obtain ⟨s, hs, hc⟩ := (Option.any_eq_true _ _).mp hrun
  have hr : Reach (· = empty) (Next digitsStrtod) s :=
    Reach.of_foldlM (fun _ a _ ha => ⟨a, (stepIf_eq_some ha).2⟩) _ (.start rfl) hs
  obtain ⟨c, hcs, hc⟩ := List.any_eq_true.mp hc
  obtain ⟨hw, hp⟩ := Bool.and_eq_true_iff.mp hc
  obtain ⟨p, hpc, hp⟩ := List.any_eq_true.mp hp
  obtain ⟨b, hb, hle⟩ := h digitsStrtod s hr c hcs 2 10000000 (of_decide_eq_true hw) (by decide)
  rw [hb, Option.any_some, decide_eq_true_eq] at hp
  exact absurd (hle p hpc) (Nat.not_lt.mpr hp)

end Watch

end TinyIoT
