/-
The notifications of a subscription that is there before the first missing point of its time series: they
are the batches of the points detected, `num` in a row within one window each. The count of the
subscription lags behind the running total by the points of the open batch, its window starts with the
first of them, and they are the newest entries of `mdlt`.
-/
import TinyIoT.Lib.Sliding
import TinyIoT.Monitor.Points

namespace TinyIoT

open Sliding

namespace Watch

variable {strtod : Strtod}

/-- The points each notification to this subscription carried. -/
def toldTo (s : Watch) (x : RTNode) : List (List Point) :=
  (s.sent.filter fun c => c.sub.id = x.id).map Sent.points

/-- `mdn` leaves room for this many points. -/
def roomFor (s : Watch) (ts : Nat) (n : Int) : Prop := ∀ t, Assoc.get s.series ts = some t → n ≤ (t.obj.num .mdn).getD 0

/-- The points of the time series `ts` detected since its subscription `x` with threshold `n` was created,
before any other, in a run of events that pass a test; the detection is not switched, neither of the two is
deleted, and the clock, which counts from 1970, is positive. -/
inductive Since (strtod : Strtod) (ok : Watch → WatchAct → Bool) (ts : Nat) (x : RTNode) (n : Int) :
    List Point → Watch → Prop where
  | created {s s' : Watch} : Reach (· = empty) (fun s s' => ∃ a, ok s a = true ∧ s.step strtod a = some s') s →
      ok s (.createChild ts x) = true → s.step strtod (.createChild ts x) = some s' →
      (∀ t, Assoc.get s'.series ts = some t → s'.totalOf t = 0) → Since strtod ok ts x n [] s'
  | point {l : List Point} {s s' : Watch} (time : CStr) (clock : Nat → Int) : Since strtod ok ts x n l s →
      ok s (.detect ts time clock) = true → s.step strtod (.detect ts time clock) = some s' → 0 < clock x.id →
      s.roomFor ts n → Since strtod ok ts x n (l ++ [⟨s.serial + 1, time, clock⟩]) s'
  | other {l : List Point} {s s' : Watch} {a : WatchAct} : Since strtod ok ts x n l s → ok s a = true →
      spares ts x a = true → s.step strtod a = some s' → Since strtod ok ts x n l s'

/-- The batches of the points, by the clock of the subscription. -/
def batches (x : RTNode) (n d : Int) (l : List Point) : State Point := run n.toNat d (fun p => p.clock x.id) l

/-- What the books of a subscription have to do with the points since it was created. -/
structure Batched (ts : Nat) (x : RTNode) (n d : Int) (l : List Point) (s : Watch) (t : Tracked) : Prop where
  series : Assoc.get s.series ts = some t
  child : x ∈ t.children
  reported : (s.windowOf x).reported = s.totalOf t - (batches x n d l).pending.length
  start : (s.windowOf x).start = (((batches x n d l).pending.head?).map fun p => p.clock x.id).getD 0
  held : (batches x n d l).pending <:+ t.held
  positive : ∀ p ∈ l, 0 < p.clock x.id
  numbered : l.Pairwise (fun p p' => p.serial < p'.serial) ∧ ∀ p ∈ l, 0 < p.serial ∧ p.serial ≤ s.serial
  told : s.toldTo x = (batches x n d l).told
  newest : (batches x n d l).pending = [] → ∀ b ∈ (batches x n d l).told.getLast?, b <:+ t.held

variable {ts : Nat} {x : RTNode} {n d : Int} {l : List Point} {s s' : Watch} {t : Tracked}

/-! ## One point -/

/-- The window runs out when that of the batch does. -/
theorem expired_eq_lapsed {w : Window} {q : List Point} (hpos : ∀ p ∈ q, 0 < p.clock x.id)
    (hstart : w.start = ((q.head?).map fun p => p.clock x.id).getD 0) (now : Int) :
    w.expired d now = lapsed d (fun p => p.clock x.id) q now := by
  unfold Window.expired lapsed
  rw [hstart]
  cases q with
  | nil => simp
  | cons p q =>
    have := hpos p List.mem_cons_self
    simp [this]

theorem window_ext {w w' : Window} (hr : w.reported = w'.reported) (hs : w.start = w'.start) : w = w' := by
  cases w
  cases w'
  simp_all

/-- The window after a point joined the batch, before a full batch is taken. -/
theorem roll_eq {w : Window} {q : List Point} {total : Int} (hpos : ∀ p ∈ q, 0 < p.clock x.id)
    (hrep : w.reported = total - q.length) (hstart : w.start = ((q.head?).map fun p => p.clock x.id).getD 0)
    (p : Point) :
    w.roll (total + 1) 1 d (p.clock x.id) = ⟨total + 1 - (join d (fun p => p.clock x.id) q p).length,
      (((join d (fun p => p.clock x.id) q p).head?).map fun p => p.clock x.id).getD 0⟩ := by
  have hr := w.reported_roll (total + 1) 1 d (p.clock x.id)
  have hs := w.start_roll (total + 1) 1 d (p.clock x.id)
  rw [expired_eq_lapsed hpos hstart] at hr hs
  refine window_ext (hr.trans ?_) (hs.trans ?_)
  all_goals
    unfold join
    dsimp only
    by_cases hl : lapsed d (fun p => p.clock x.id) q (p.clock x.id) = true
  · -- the window ran out, and what was pending is given up
    have hq : q ≠ [] := by
      rintro rfl
      simp [lapsed] at hl
    have := List.length_pos_iff.mpr hq
    rw [if_pos ⟨hl, by omega⟩, if_pos hl]
    simp
  · rw [if_neg (fun h => hl h.1), if_neg hl, hrep]
    simp
  · rw [if_pos (.inl hl), if_pos hl]
    rfl
  · rw [if_neg hl, hstart]
    cases q with
    | nil => simp
    | cons q₀ q =>
      have := hpos q₀ List.mem_cons_self
      have hne : ¬(lapsed d (fun p => p.clock x.id) (q₀ :: q) (p.clock x.id) = true ∨ q₀.clock x.id = 0) := by
        rintro (h | h)
        · exact hl h
        · omega
      exact if_neg hne

/-- A suffix that is short enough is left by `mdn`. -/
theorem suffix_trimTo {α : Type} {ts : Obj} {q l : List α} (h : q <:+ l) (hlen : (q.length : Int) ≤ (ts.num .mdn).getD 0) :
    q <:+ trimTo ts l := by
  refine List.suffix_of_suffix_length_le h (trimTo_suffix ts l) ?_
  have := h.length_le
  unfold trimTo
  split
  · rw [List.length_drop]
    omega
  · exact this

/-- The batch of a subscription that is `n` points behind is the `n` newest entries. -/
theorem mdBatch_newest {α : Type} {l q : List α} (h : q <:+ l) {total before : Int} (hn : total - before = q.length)
    (hmax : (q.length : Int) ≤ intMax) :
    (l.drop (mdBatch l.length total before q.length).1).take (mdBatch l.length total before q.length).2 = q := by
  have hlen := h.length_le
  have hc : cInt (total - before) = q.length := by
    rw [hn]
    exact cInt_eq (by unfold intMin; omega) hmax
  obtain ⟨pre, rfl⟩ := h
  rw [List.length_append] at hlen
  have hstart : (mdBatch (pre ++ q).length total before q.length).1 = pre.length := by
    unfold mdBatch
    rw [hc, List.length_append]
    dsimp only
    omega
  have htake : (mdBatch (pre ++ q).length total before q.length).2 = q.length := by
    unfold mdBatch
    rw [hc, List.length_append]
    dsimp only
    omega
  rw [hstart, htake, List.drop_left, List.take_length]

/-- Where keys are distinct, one element has the key of another: itself. -/
theorem filter_key_eq {α β : Type} [DecidableEq β] {f : α → β} {l : List α} (h : l.Pairwise fun a b => f a ≠ f b)
    {a : α} (ha : a ∈ l) : l.filter (fun b => f b = f a) = [a] := by
  induction l with
  | nil => cases ha
  | cons b l ih =>
    obtain ⟨hb, hl⟩ := List.pairwise_cons.mp h
    rcases List.mem_cons.mp ha with rfl | ha
    · have hnil : l.filter (fun b => f b = f a) = [] :=
        List.filter_eq_nil_iff.mpr fun c hc => by simpa using (hb c hc).symm
      simp [hnil]
    · rw [List.filter_cons_of_neg (by simpa using hb a ha), ih hl ha]

/-- The notifications of a detection go to children of the time series. -/
theorem sub_mem_of_newSent {time : CStr} {clock : Nat → Int} {c : Sent} (hc : c ∈ s.newSent strtod t time clock) :
    c.sub ∈ t.children := by
  obtain ⟨m, _, hm⟩ := List.mem_filterMap.mp hc
  obtain ⟨y, hy, rfl⟩ := Option.map_eq_some_iff.mp hm
  exact List.mem_of_find?_eq_some hy

theorem toldTo_append {l : List Sent} (h : s'.sent = s.sent ++ l) :
    s'.toldTo x = s.toldTo x ++ (l.filter fun c => c.sub.id = x.id).map Sent.points := by
  unfold toldTo
  rw [h, List.filter_append, List.map_append]

/-- A notification goes to the subscription at a point exactly when its batch `q` is full, and carries it. -/
theorem toldTo_detect {r : CStr} {time : CStr} {clock : Nat → Int} {q : List Point} {st : Int} (hk : s.Keyed)
    (ht : Assoc.get s.series ts = some t) (hent : List.Forall₂ Entered t.held (mdltOf t.obj)) (hx : x ∈ t.children)
    (hr : x.ri = some r) (hw : mdWanted strtod x = some (n, d))
    (hnu : ((subObj x).member .nu).any Json.isArray = true)
    (hroll : (s.windowOf x).roll (s.totalOf t + 1) 1 d (clock x.id) = ⟨s.totalOf t + 1 - q.length, st⟩)
    (hq : q <:+ s.newHeld t time clock) (hfew : (q.length : Int) ≤ n) :
    (s.detect strtod ts t time clock).toldTo x = s.toldTo x ++ if n ≤ q.length then [q] else [] := by
  have he : (ts, t) ∈ s.series := Assoc.mem_of_get ht
  obtain ⟨a, b, hser, _, _⟩ := split_series ht
  obtain ⟨hkd, hks, hids⟩ := hk.children_keys hser
  obtain ⟨p, hp, _⟩ := hk.named (ts, t) he
  have hp' : (recordMissing t.obj time).str .ri = some p := (str_ri_recordMissing t.obj time).trans hp
  have hT : s.totalOf t = s.mon.total p := by unfold totalOf; rw [hp]; rfl
  have hW : s.windowOf x = s.mon.window r := by unfold windowOf; rw [hr]; rfl
  have hn := mdWanted_pos hw
  rw [toldTo_append (s := s) (l := s.newSent strtod t time clock) rfl]
  congr 1
  by_cases hfull : n ≤ q.length
  · -- the batch is full
    have hlen : n = q.length := Int.le_antisymm hfull hfew
    have hmd : (mdltOf (recordMissing t.obj time)).length = (s.newHeld t time clock).length :=
      (entered_newHeld hent time clock).length_eq.symm
    have hle := hq.length_le
    have hdiff : s.totalOf t + 1 - (s.totalOf t + 1 - (q.length : Int)) = q.length := by omega
    have hmax : (q.length : Int) ≤ intMax := by
      have := mdWanted_le hw
      omega
    obtain ⟨notice, hnotice, hsub⟩ : ∃ m, mdNotice (recordMissing t.obj time) x (s.totalOf t + 1)
        (s.totalOf t + 1 - q.length) n = some m ∧ m.sub = x.id :=
      mdNotice_isSome (by omega) hn hnu (by omega) (by omega)
    have hmem : notice ∈ (notifyMissingData strtod s.mon (recordMissing t.obj time) t.children 1 clock).2 := by
      refine (mem_notify_iff hp' hkd hks).mpr ⟨x, hx, r, n, d, hr, hw, ?_, ?_⟩
      · rw [← hT, ← hW, hroll]
        dsimp only
        omega
      · rw [← hT, ← hW, hroll]
        exact hnotice
    have hpoints : ((s.newHeld t time clock).drop notice.start).take notice.len = q := by
      simp only [mdNotice, Option.ite_none_right_eq_some, Option.some.injEq] at hnotice
      rw [← hnotice.2, hmd, hlen]
      exact mdBatch_newest hq hdiff hmax
    have hc : (⟨x, q⟩ : Sent) ∈ s.newSent strtod t time clock := by
      refine List.mem_filterMap.mpr ⟨notice, hmem, ?_⟩
      rw [hsub, find?_hasId hids hx, hpoints]
      rfl
    rw [filter_key_eq (f := fun c : Sent => c.sub.id) (pairwise_newSent hk he time clock) hc, if_pos hfull]
    rfl
  · -- it is not, and no notification is for it
    rw [if_neg hfull]
    refine (List.map_eq_nil_iff).mpr (List.filter_eq_nil_iff.mpr fun c hc => ?_)
    obtain ⟨r', n', d', hc', _, hw', hfull', _⟩ := mem_newSent hk he hent hc
    simp only [decide_eq_true_eq]
    intro hcx
    have hcx : c.sub = x := List.inj_on_of_nodup_map hids hc' hx hcx
    rw [hcx, hw] at hw'
    cases hw'
    unfold behind at hfull'
    rw [hcx, hroll] at hfull'
    dsimp only at hfull'
    omega

/-! ## Runs -/

/-- At a point of its time series a subscription is presented the next total. -/
theorem presented_detect {r : CStr} (hk : s.Keyed) (ht : Assoc.get s.series ts = some t) (hx : x ∈ t.children)
    (hr : x.ri = some r) (hw : mdWanted strtod x = some (n, d)) (time : CStr) (clock : Nat → Int) :
    (s.detect strtod ts t time clock).windowOf x = (s.windowOf x).advance (s.totalOf t + 1) n d (clock x.id) ∧
      (s.detect strtod ts t time clock).totalOf ⟨recordMissing t.obj time, t.children, s.newHeld t time clock⟩ =
        s.totalOf t + 1 := by
  obtain ⟨a, b, _, hset, _⟩ := split_series ht
  have hmem : (ts, ⟨recordMissing t.obj time, t.children, s.newHeld t time clock⟩) ∈
      (s.detect strtod ts t time clock).series := by
    show _ ∈ Assoc.set s.series ts _
    rw [hset]
    simp
  have heq : ∀ e ∈ s.series, ts = e.1 → e.2 = t := by
    rintro e he rfl
    exact Option.some.inj ((hk.get_of_mem he).symm.trans ht)
  cases fate_detect hk ht time clock hmem hx hw with
  | kept e mem child addr quiet => exact absurd (congrArg (WatchAct.detect · time clock) addr) (quiet time clock)
  | forgotten e body now kept mem child addr act => cases act
  | created e mem act => cases act
  | presented e time' clock' mem child addr act window total =>
    cases act
    cases heq e mem rfl
    exact ⟨window r n d hr hw, total⟩

/-- At a point the subscription goes on with the batches. -/
theorem Batched.point {r : CStr} {time : CStr} {clock : Nat → Int} (hb : s.Batched ts x n d l t) (hk : s.Keyed)
    (hs : s.Serials) (hr : x.ri = some r) (hw : mdWanted strtod x = some (n, d))
    (hnu : ((subObj x).member .nu).any Json.isArray = true) (hpos : 0 < clock x.id) (hroom : s.roomFor ts n) :
    (s.detect strtod ts t time clock).Batched ts x n d (l ++ [⟨s.serial + 1, time, clock⟩])
      ⟨recordMissing t.obj time, t.children, s.newHeld t time clock⟩ := by
  set p : Point := ⟨s.serial + 1, time, clock⟩
  obtain ⟨q, hjoin⟩ : ∃ q, join d (fun p : Point => p.clock x.id) (batches x n d l).pending p = q := ⟨_, rfl⟩
  have hn := mdWanted_pos hw
  have hent := (hs.held _ (Assoc.mem_of_get hb.series)).1
  have hsub : (batches x n d l).pending <:+ l := (pending_run (by omega) l).2
  have hfew : (q.length : Int) ≤ n := by
    have h₁ : (batches x n d l).pending.length < n.toNat := (pending_run (by omega) l).1
    have h₂ : q.length ≤ (batches x n d l).pending.length + 1 := hjoin ▸ length_join_le _ _
    omega
  have hheld : q <:+ s.newHeld t time clock := by
    refine suffix_trimTo (hjoin ▸ join_suffix hb.held p) ?_
    have := hroom t hb.series
    omega
  have hroll := roll_eq (fun p hp => hb.positive p (hsub.subset hp)) hb.reported hb.start p (d := d)
  rw [hjoin] at hroll
  have htold := toldTo_detect hk hb.series hent hb.child hr hw hnu hroll hheld hfew
  obtain ⟨hwin, htotal⟩ := presented_detect hk hb.series hb.child hr hw time clock
  obtain ⟨hlt, hser⟩ := hb.numbered
  have hnum : (l ++ [p]).Pairwise (fun p p' => p.serial < p'.serial) ∧
      ∀ p' ∈ l ++ [p], 0 < p'.serial ∧ p'.serial ≤ s.serial + 1 := by
    refine ⟨List.pairwise_append.mpr ⟨hlt, List.pairwise_singleton .., ?_⟩, fun p' hp' => ?_⟩
    · intro p' hp' p'' hp''
      cases List.mem_singleton.mp hp''
      exact Nat.lt_succ_of_le (hser p' hp').2
    · rcases List.mem_append.mp hp' with hp' | hp'
      · exact ⟨(hser p' hp').1, Nat.le_succ_of_le (hser p' hp').2⟩
      · cases List.mem_singleton.mp hp'
        exact ⟨Nat.succ_pos _, Nat.le_refl _⟩
  have hposs : ∀ p' ∈ l ++ [p], 0 < p'.clock x.id := by
    intro p' hp'
    rcases List.mem_append.mp hp' with hp' | hp'
    · exact hb.positive p' hp'
    · cases List.mem_singleton.mp hp'
      exact hpos
  have hget : Assoc.get (s.detect strtod ts t time clock).series ts =
      some ⟨recordMissing t.obj time, t.children, s.newHeld t time clock⟩ := Assoc.get_set_self hb.series
  have hpush : batches x n d (l ++ [p]) = if n.toNat ≤ q.length then ⟨[], (batches x n d l).told ++ [q]⟩
      else ⟨q, (batches x n d l).told⟩ := by
    rw [← hjoin]
    exact run_snoc l p
  by_cases hfull : n ≤ q.length
  · -- the batch is told, and nothing is pending
    have hbat : batches x n d (l ++ [p]) = ⟨[], (batches x n d l).told ++ [q]⟩ :=
      hpush.trans (if_pos (by omega))
    have hadv : (s.windowOf x).advance (s.totalOf t + 1) n d (clock x.id) = ⟨s.totalOf t + 1, 0⟩ := by
      unfold Window.advance Window.settle
      rw [hroll, if_pos (by dsimp only; omega)]
      exact window_ext (by dsimp only; omega) rfl
    refine ⟨hget, hb.child, ?_, ?_, ?_, hposs, hnum, ?_, ?_⟩
    · rw [hwin, hadv, htotal, hbat]
      simp
    · rw [hwin, hadv, hbat]
      rfl
    · rw [hbat]
      exact List.nil_suffix
    · rw [htold, hbat, if_pos hfull, hb.told]
    · rw [hbat]
      intro _ b hbm
      simp only [List.getLast?_concat, Option.mem_def, Option.some.injEq] at hbm
      rw [← hbm]
      exact hheld
  · -- the point stays pending
    have hbat : batches x n d (l ++ [p]) = ⟨q, (batches x n d l).told⟩ :=
      hpush.trans (if_neg (by omega))
    have hadv : (s.windowOf x).advance (s.totalOf t + 1) n d (clock x.id) =
        (s.windowOf x).roll (s.totalOf t + 1) 1 d (clock x.id) := by
      unfold Window.advance Window.settle
      rw [hroll, if_neg (by dsimp only; omega)]
    refine ⟨hget, hb.child, ?_, ?_, ?_, hposs, hnum, ?_, ?_⟩
    · rw [hwin, hadv, htotal, hbat, hroll]
    · rw [hwin, hadv, hbat, hroll]
    · rw [hbat]
      exact hheld
    · rw [htold, hbat, if_neg hfull, hb.told, List.append_nil]
    · rw [hbat]
      exact fun h => absurd h (hjoin ▸ join_ne_nil _ _)

/-- An event that spares the subscription sends it nothing. -/
theorem toldTo_of_spares {a : WatchAct} (hk : s.Keyed) (ht : Assoc.get s.series ts = some t) (hx : x ∈ t.children)
    (hsp : spares ts x a = true) (h : s.step strtod a = some s') : s'.toldTo x = s.toldTo x := by
  rcases step_sent_cases h with hsent | ⟨i, u, time, clock, rfl, hu, rfl⟩
  · unfold toldTo
    rw [hsent]
  · -- a point of another time series
    have hne : i ≠ ts := by simpa [spares] using hsp
    obtain ⟨a, b, hser, _, _⟩ := split_series hu
    have hmem : (ts, t) ∈ a ++ b := by
      have he := Assoc.mem_of_get ht
      rw [hser] at he
      exact (mem_middle.mp he).resolve_left fun h => hne (congrArg Prod.fst h).symm
    have hnil : (s.newSent strtod u time clock).filter (fun c => c.sub.id = x.id) = [] := by
      refine List.filter_eq_nil_iff.mpr fun c hc => ?_
      simp only [decide_eq_true_eq]
      intro hcx
      refine (hk.other_keys hser hmem hx).2 ?_
      rw [← hcx]
      exact List.mem_map_of_mem (sub_mem_of_newSent hc)
    rw [toldTo_append (s := s) (l := s.newSent strtod u time clock) rfl, hnil]
    exact List.append_nil _

theorem Batched.other {a : WatchAct} (hb : s.Batched ts x n d l t) (hk : s.Keyed) (hw : mdWanted strtod x = some (n, d))
    (hp : s.proper a = true) (hsp : spares ts x a = true) (h : s.step strtod a = some s') :
    ∃ t', s'.Batched ts x n d l t' := by
  have hmem := Assoc.mem_of_get hb.series
  obtain ⟨e', he', hts, hx⟩ := stays h (.inr hsp) hmem rfl hb.child
  have hk' := hk.step hp h
  have heq : ∀ e ∈ s.series, e'.1 = e.1 → e.2 = t := fun e he hee =>
    congrArg Prod.snd (hk.eq_of_addr he hmem (hee.symm.trans hts))
  obtain ⟨hlt, hser⟩ := hb.numbered
  cases hk.fate hp h he' hx hw with
  | kept e mem child addr quiet window total held sent =>
    cases heq e mem addr
    refine ⟨e'.2, hts ▸ hk'.get_of_mem he', hx, ?_, ?_, ?_, hb.positive,
      ⟨hlt, fun p hp => ⟨(hser p hp).1, Nat.le_trans (hser p hp).2 (step_grows h).1⟩⟩, ?_, ?_⟩
    · rw [window, total]
      exact hb.reported
    · rw [window]
      exact hb.start
    · rw [held]
      exact hb.held
    · rw [toldTo_of_spares hk hb.series hb.child hsp h]
      exact hb.told
    · rw [held]
      exact hb.newest
  | forgotten e body now kept mem child addr act mdd =>
    subst act
    have hets : e.1 = ts := addr.symm.trans hts
    simp [spares, hets, mdd] at hsp
  | created e mem act fresh =>
    obtain ⟨b, hb⟩ := hk.born x (List.mem_flatMap.mpr ⟨_, hmem, hb.child⟩)
    rw [Assoc.has_eq_false.mp fresh] at hb
    cases hb
  | presented e time clock mem child addr act =>
    subst act
    have hets : e.1 = ts := addr.symm.trans hts
    simp [spares, hets] at hsp

/-- A new subscription of a time series without a point starts with an empty batch. -/
theorem batched_created (hk : s.Keyed) (hs : s.Serials) (hw : mdWanted strtod x = some (n, d))
    (hp : s.proper (.createChild ts x) = true) (h : s.step strtod (.createChild ts x) = some s')
    (hzero : ∀ t, Assoc.get s'.series ts = some t → s'.totalOf t = 0) : ∃ t, s'.Batched ts x n d [] t := by
  have hk' := hk.step hp h
  obtain ⟨t, hget, hchild, hnew, hsent⟩ : ∃ t, Assoc.get s'.series ts = some t ∧ x ∈ t.children ∧
      Assoc.has s.born x.id = false ∧ s'.sent = s.sent := by
    simp only [Watch.step, Option.bind_eq_bind, Option.bind_eq_some_iff] at h
    obtain ⟨t, ht, h⟩ := h
    split at h
    · rename_i hx
      cases h
      exact ⟨_, Assoc.get_set_self ht, (roots_insertChild x _).symm.subset List.mem_cons_self, hx.2, rfl⟩
    · cases h
  have hborn : ¬∃ b, Assoc.get s.born x.id = some b := by
    rintro ⟨b, hb⟩
    rw [Assoc.has_eq_false.mp hnew] at hb
    cases hb
  have hfresh : s'.windowOf x = .fresh := by
    cases hk.fate hp h (Assoc.mem_of_get hget) hchild hw with
    | kept e mem child => exact absurd (hk.born x (List.mem_flatMap.mpr ⟨e, mem, child⟩)) hborn
    | forgotten e body now kept mem child addr act => cases act
    | presented e time clock mem child addr act => cases act
    | created e mem act fresh window => exact window _ hw
  refine ⟨t, hget, hchild, ?_, ?_, List.nil_suffix, fun p hp => (by cases hp), ⟨.nil, fun p hp => by cases hp⟩, ?_, ?_⟩
  · rw [hfresh, hzero t hget]
    rfl
  · rw [hfresh]
    rfl
  · refine List.map_eq_nil_iff.mpr (List.filter_eq_nil_iff.mpr fun c hc => ?_)
    simp only [decide_eq_true_eq]
    intro hcx
    rw [hsent] at hc
    exact hborn (hcx ▸ hs.subs c hc)
  · intro _ b hb
    cases hb

theorem batched_of_since {r : CStr} (hw : mdWanted strtod x = some (n, d)) (hr : x.ri = some r)
    (hnu : ((subObj x).member .nu).any Json.isArray = true)
    (h : Since strtod (fun s a => s.proper a) ts x n l s) : s.Keyed ∧ s.Serials ∧ ∃ t, s.Batched ts x n d l t := by
  induction h with
  | @created s s' hreach hp hstep hzero =>
    have hinv : s.Keyed ∧ s.Serials := by
      refine hreach.inv (I := fun s => s.Keyed ∧ s.Serials) ?_ ?_
      · rintro s rfl
        exact ⟨keyed_empty, serials_empty⟩
      · rintro s s' ⟨hk, hs⟩ ⟨a, hp, hstep⟩
        exact ⟨hk.step hp hstep, hs.step hk hstep⟩
    exact ⟨hinv.1.step hp hstep, hinv.2.step hinv.1 hstep, batched_created hinv.1 hinv.2 hw hp hstep hzero⟩
  | @point l s s' time clock _ hp hstep hpos hroom ih =>
    obtain ⟨hk, hs, t, hb⟩ := ih
    refine ⟨hk.step hp hstep, hs.step hk hstep, ?_⟩
    simp only [Watch.step, Option.bind_eq_bind, hb.series, Option.bind_some] at hstep
    split at hstep
    · cases hstep
      exact ⟨_, hb.point hk hs hr hw hnu hpos hroom⟩
    · cases hstep
  | @other l s s' a _ hp hsp hstep ih =>
    obtain ⟨hk, hs, t, hb⟩ := ih
    exact ⟨hk.step hp hstep, hs.step hk hstep, hb.other hk hw hp hsp hstep⟩

/-- The entries the detections of a batch made. -/
theorem times_of_entered {b : List Point} {m : List Json} (h : List.Forall₂ Entered b m) (hpos : ∀ p ∈ b, 0 < p.serial) :
    b.map (fun p => Json.str p.time) = m := by
  induction h with
  | nil => rfl
  | cons hp _ ih =>
    rw [List.map_cons, ih fun p hpm => hpos p (List.mem_cons_of_mem _ hpm), ← hp (hpos _ List.mem_cons_self)]

/-- A notification that has just been sent carries the newest entries of `mdlt`. -/
theorem Batched.newest_entries (hb : s.Batched ts x n d l t) (hs : s.Serials) (hq : (batches x n d l).pending = [])
    {b : List Point} (hbm : b ∈ (s.toldTo x).getLast?) : (b.map fun p => Json.str p.time) <:+ mdltOf t.obj := by
  have hent := (hs.held _ (Assoc.mem_of_get hb.series)).1
  rw [hb.told] at hbm
  have htold : b ∈ (batches x n d l).told := List.mem_of_getLast? hbm
  have hmem : ∀ p ∈ b, p ∈ l := fun p hp =>
    (told_sublist (n := n.toNat) (d := d) l).subset (List.mem_append_left _ (List.mem_flatten.mpr ⟨b, htold, hp⟩))
  obtain ⟨pre, hpre⟩ := hb.newest hq b hbm
  rw [← hpre] at hent
  have hdrop := List.forall₂_drop pre.length hent
  rw [List.drop_left] at hdrop
  rw [times_of_entered hdrop fun p hp => (hb.numbered.2 p (hmem p hp)).1]
  exact List.drop_suffix _ _

/-- In every run in which no identifier is given out twice, or is too long for an entry, a subscription that
was there before the first missing point of its time series is sent the batches of the points: it is notified
at a point exactly when `n` points were detected since the last notification and the last end of a window,
and told of these points, the newest of `mdlt`. No point is told twice. -/
theorem batches_of_proper_run {r : CStr} (hw : mdWanted strtod x = some (n, d)) (hr : x.ri = some r)
    (hnu : ((subObj x).member .nu).any Json.isArray = true) (h : Since strtod (fun s a => s.proper a) ts x n l s) :
    s.toldTo x = (batches x n d l).told ∧ (∀ b ∈ s.toldTo x, b.length = n.toNat) ∧ (s.toldTo x).flatten.Nodup ∧
      ((batches x n d l).pending = [] → ∀ t, Assoc.get s.series ts = some t → ∀ b ∈ (s.toldTo x).getLast?,
        (b.map fun p => Json.str p.time) <:+ mdltOf t.obj) := by
  obtain ⟨hk, hs, t, hb⟩ := batched_of_since hw hr hnu h
  have hn := mdWanted_pos hw
  have hsub : (s.toldTo x).flatten.Sublist l := by
    rw [hb.told]
    exact (List.sublist_append_left _ _).trans (told_sublist l)
  refine ⟨hb.told, fun b hbm => ?_, ?_, fun hq t' ht' b hbm => ?_⟩
  · rw [hb.told] at hbm
    exact length_of_mem_told (by omega) hbm
  · exact (hb.numbered.1.imp fun {p p'} hlt heq => Nat.ne_of_lt hlt (congrArg Point.serial heq)).sublist hsub
  · cases Option.some.inj (ht'.symm.trans hb.series)
    exact hb.newest_entries hs hq hbm

/-! ## Two runs -/

/-- The start of a run with a subscription of a time series without points, and what is left to show of it. -/
theorem since_of_run {ok : Watch → WatchAct → Bool} {s₀ s₁ : Watch} (acts : List WatchAct)
    (hrun : acts.foldlM (stepIf strtod ok) empty = some s₀) (hcreate : stepIf strtod ok s₀ (.createChild ts x) = some s₁)
    (hzero : s₁.series.all (fun e => s₁.totalOf e.2 = 0) = true) : Since strtod ok ts x n [] s₁ := by
  have hreach : Reach (· = empty) (fun s s' => ∃ a, ok s a = true ∧ s.step strtod a = some s') s₀ :=
    Reach.of_foldlM (fun _ a _ ha => ⟨a, stepIf_eq_some ha⟩) acts (.start rfl) hrun
  obtain ⟨hok, hstep⟩ := stepIf_eq_some hcreate
  refine .created hreach hok hstep fun t ht => ?_
  exact of_decide_eq_true (List.all_eq_true.mp hzero _ (Assoc.mem_of_get ht))

theorem since_point {ok : Watch → WatchAct → Bool} (time : CStr) (clock : Nat → Int) (h : Since strtod ok ts x n l s)
    (hs : stepIf strtod ok s (.detect ts time clock) = some s') (hpos : 0 < clock x.id)
    (hroom : s.series.all (fun e => n ≤ (e.2.obj.num .mdn).getD 0) = true) :
    Since strtod ok ts x n (l ++ [⟨s.serial + 1, time, clock⟩]) s' := by
  obtain ⟨hok, hstep⟩ := stepIf_eq_some hs
  refine .point time clock h hok hstep hpos fun t ht => ?_
  exact of_decide_eq_true (List.all_eq_true.mp hroom _ (Assoc.mem_of_get ht))

/-- Two points four seconds apart are told together. -/
theorem batches_of_proper_run_two : ∃ (l : List Point) (s : Watch), s.toldTo pairSub = (batches pairSub 2 10000000 l).told ∧
    (s.toldTo pairSub).map (fun b => b.map Point.serial) = [[1, 2]] := by
  have hw : mdWanted digitsStrtod pairSub = some (2, 10000000) := by decide +kernel
  have h₀ : Since digitsStrtod (fun s a => s.proper a) 0 pairSub 2 [] _ :=
    since_of_run [.createTs 0 watchedTs] rfl rfl rfl
  have h₁ := since_point "20240101T000000".toList (fun _ => 3000000) h₀ rfl (by decide) rfl
  have h₂ := since_point "20240101T000004".toList (fun _ => 7000000) h₁ rfl (by decide) rfl
  exact ⟨_, _, (batches_of_proper_run hw rfl rfl h₂).1, by decide +kernel⟩

/-- Two subscriptions that took one identifier share a window: the first takes every batch, and the second
is told of nothing. -/
theorem shared_window : ¬ ∀ (strtod : Strtod) (s : Watch) (ts : Nat) (x : RTNode) (n d : Int) (l : List Point),
    mdWanted strtod x = some (n, d) → Since strtod (fun _ _ => true) ts x n l s →
      s.toldTo x = (batches x n d l).told := by
  intro h
  have hw : mdWanted digitsStrtod { pairSub with id := 2 } = some (2, 10000000) := by decide +kernel
  have h₀ : Since digitsStrtod (fun _ _ => true) 0 { pairSub with id := 2 } 2 [] _ :=
    since_of_run [.createTs 0 watchedTs, .createChild 0 pairSub] rfl rfl rfl
  have h₁ := since_point "20240101T000000".toList (fun _ => 3000000) h₀ rfl (by decide) rfl
  have h₂ := since_point "20240101T000004".toList (fun _ => 7000000) h₁ rfl (by decide) rfl
  have htold := congrArg List.length (h _ _ _ _ _ _ _ hw h₂)
  revert htold
  decide +kernel

end Watch

end TinyIoT
