/-
What a detection does to the running totals, to the windows and to the notifications sent, in a state
where everything has an identifier of its own: the total of the time series grows by one, each of its
subscriptions is presented the new total once, and nothing else changes.
-/
import TinyIoT.Monitor.Keyed
import Mathlib.Data.List.Pairwise

namespace TinyIoT

/-- The window of a subscription after a new total is presented to it. -/
def Window.advance (w : Window) (total n d now : Int) : Window := ((w.roll total 1 d now).settle total n).1

/-- Where keys are distinct, a key belongs to one child. -/
theorem key_inj {l : List RTNode} (h : (l.filterMap subKey).Nodup) {x y : RTNode} (hx : x ∈ l) (hy : y ∈ l) {k : CStr}
    (hxk : subKey x = some k) (hyk : subKey y = some k) : x = y := by
  by_contra hne
  have hp := List.pairwise_filterMap.mp h
  have : Std.Symm fun a a' : RTNode => ∀ b, subKey a = some b → ∀ b', subKey a' = some b' → b ≠ b' :=
    ⟨fun a a' hab b hb b' hb' => (hab b' hb' b hb).symm⟩
  exact hp.forall hx hy hne k hxk k hyk rfl

theorem find?_hasId {l : List RTNode} (h : (l.map RTNode.id).Nodup) {x : RTNode} (hx : x ∈ l) :
    l.find? (RTNode.hasId x.id) = some x := by
  cases hf : l.find? (RTNode.hasId x.id) with
  | none => exact absurd (List.find?_eq_none.mp hf x hx) (by simp [RTNode.hasId])
  | some c =>
    have hcid : c.id = x.id := by simpa [RTNode.hasId] using List.find?_some hf
    rw [List.inj_on_of_nodup_map h (List.mem_of_find?_eq_some hf) hx hcid]

namespace Watch

/-- The running total of a time series. -/
def totalOf (s : Watch) (t : Tracked) : Int := ((t.obj.str .ri).map s.mon.total).getD 0

/-- The window of a subscription. -/
def windowOf (s : Watch) (x : RTNode) : Window := (x.ri.map s.mon.window).getD .fresh

variable {strtod : Strtod} {s s' : Watch} {a b : List (Nat × Tracked)} {ts : Nat} {t : Tracked}

theorem Keyed.totalOf_nonneg (hs : s.Keyed) (t : Tracked) : 0 ≤ s.totalOf t := by
  unfold totalOf
  cases t.obj.str .ri with
  | none => exact Int.le_refl 0
  | some r => exact hs.total_nonneg r

/-! ## Keys of one time series and of the others -/

theorem Keyed.children_keys (hs : s.Keyed) (h : s.series = a ++ (ts, t) :: b) :
    (t.children.filterMap subKey).Nodup ∧ (∀ k ∈ t.children.filterMap subKey, k.length ≤ 255) ∧
      (t.children.map RTNode.id).Nodup := by
  have hsub : t.children.Sublist s.subs := by
    rw [subs_split h]
    exact (List.sublist_append_left _ _).trans (List.sublist_append_right _ _)
  exact ⟨hs.keys.sublist (hsub.filterMap _), fun k hk => hs.short k ((hsub.filterMap _).subset hk),
    hs.ids.sublist (hsub.map _)⟩

/-- A child of another time series has another key and another address. -/
theorem Keyed.other_keys (hs : s.Keyed) (h : s.series = a ++ (ts, t) :: b) {e : Nat × Tracked} (he : e ∈ a ++ b)
    {y : RTNode} (hy : y ∈ e.2.children) :
    (∀ k, subKey y = some k → k.length ≤ 255 ∧ k ∉ t.children.filterMap subKey) ∧ y.id ∉ t.children.map RTNode.id := by
  have hperm : s.subs.Perm (t.children ++ (a ++ b).flatMap fun e => e.2.children) := by
    rw [subs_split h, List.flatMap_append]
    exact List.perm_append_comm_assoc _ _ _
  have hyo : y ∈ (a ++ b).flatMap fun e => e.2.children := List.mem_flatMap.mpr ⟨e, he, hy⟩
  constructor
  · intro k hk
    have hd := (hperm.filterMap subKey).nodup_iff.mp hs.keys
    rw [List.filterMap_append] at hd
    have hko : k ∈ ((a ++ b).flatMap fun e => e.2.children).filterMap subKey := List.mem_filterMap.mpr ⟨y, hyo, hk⟩
    refine ⟨hs.short k (List.mem_filterMap.mpr ⟨y, hperm.symm.subset (List.mem_append_right _ hyo), hk⟩), fun hkt => ?_⟩
    exact List.disjoint_of_nodup_append hd hkt hko
  · intro hyt
    have hd := (hperm.map RTNode.id).nodup_iff.mp hs.ids
    rw [List.map_append] at hd
    exact List.disjoint_of_nodup_append hd hyt (List.mem_map_of_mem hyo)

/-- Another time series has another identifier. -/
theorem Keyed.other_name (hs : s.Keyed) (h : s.series = a ++ (ts, t) :: b) {e : Nat × Tracked} (he : e ∈ a ++ b)
    {q q' : CStr} (hq : t.obj.str .ri = some q) (hq' : e.2.obj.str .ri = some q') : q ≠ q' := by
  have hperm : s.series.Perm ((ts, t) :: (a ++ b)) := by
    rw [h]
    exact List.perm_middle
  have hd : (((ts, t) :: (a ++ b)).filterMap fun e => e.2.obj.str .ri).Nodup :=
    (hperm.filterMap _).nodup_iff.mp hs.names
  have hcons : (((ts, t) :: (a ++ b)).filterMap fun e => e.2.obj.str .ri) =
      q :: (a ++ b).filterMap fun e => e.2.obj.str .ri := by
    rw [List.filterMap_cons]
    simp [hq]
  rw [hcons] at hd
  rintro rfl
  exact (List.nodup_cons.mp hd).1 (List.mem_filterMap.mpr ⟨e, he, hq'⟩)

/-! ## The call -/

section Notify

variable {obj : Obj} {clock : Nat → Int} {q : CStr}

/-- The call adds one to the total and visits the children with it. -/
theorem notifyMissingData_eq {m : Monitor} {l : List RTNode} (hq : obj.str .ri = some q) (hl : l ≠ []) :
    notifyMissingData strtod m obj l 1 clock = visitChildren strtod obj (m.total q + 1) 1 clock
      { m with totals := putEntry m.totals q (m.total q + 1) } l := by
  unfold notifyMissingData
  rw [if_neg (by simpa using hl), hq]
  rfl

theorem notify_total {m : Monitor} {l : List RTNode} (hq : obj.str .ri = some q) (hlen : q.length ≤ 255) (hl : l ≠ []) :
    (notifyMissingData strtod m obj l 1 clock).1.total q = m.total q + 1 := by
  rw [notifyMissingData_eq hq hl]
  unfold Monitor.total
  rw [visitChildren_totals, get_putEntry_self hlen]
  rfl

theorem notify_total_of_ne {m : Monitor} {l : List RTNode} {q' : CStr} (hq : obj.str .ri = some q) (hlen : q.length ≤ 255)
    (hne : q ≠ q') : (notifyMissingData strtod m obj l 1 clock).1.total q' = m.total q' := by
  by_cases hl : l = []
  · subst hl
    rfl
  · rw [notifyMissingData_eq hq hl]
    unfold Monitor.total
    rw [visitChildren_totals, get_putEntry_ne hlen hne]

/-- A subscription of the time series is presented the new total. -/
theorem notify_window {m : Monitor} {l : List RTNode} {x : RTNode} {r : CStr} {n d : Int} (hq : obj.str .ri = some q)
    (hd : (l.filterMap subKey).Nodup) (hlen : ∀ k ∈ l.filterMap subKey, k.length ≤ 255) (hx : x ∈ l)
    (hw : mdWanted strtod x = some (n, d)) (hr : x.ri = some r) :
    (notifyMissingData strtod m obj l 1 clock).1.window r =
      (m.window r).advance (m.total q + 1) n d (clock x.id) := by
  have hk : subKey x = some r := (subKey_of_wanted hw).trans hr
  have hshort : r.length ≤ 255 := hlen r (List.mem_filterMap.mpr ⟨x, hx, hk⟩)
  rw [notifyMissingData_eq hq (List.ne_nil_of_mem hx), visitChildren_window _ _ hlen hd hx hk, visitChild_take hw hr]
  have hm : ({ m with totals := putEntry m.totals q (m.total q + 1) } : Monitor).window r = m.window r := rfl
  rw [hm]
  unfold Window.advance Window.settle
  split
  · exact Monitor.window_putEntry_self hshort
  · exact Monitor.window_putEntry_self hshort

/-- The subscriptions of other time series do not hear of it. -/
theorem notify_window_of_not_mem {m : Monitor} {l : List RTNode} {k : CStr} (hq : obj.str .ri = some q)
    (hlen : ∀ k ∈ l.filterMap subKey, k.length ≤ 255) (hk : k.length ≤ 255) (hn : k ∉ l.filterMap subKey) :
    (notifyMissingData strtod m obj l 1 clock).1.window k = m.window k := by
  by_cases hl : l = []
  · subst hl
    rfl
  · rw [notifyMissingData_eq hq hl, visitChildren_window_of_not_mem hk]
    · rfl
    · exact fun k' hk' => ⟨hlen k' hk', fun he => hn (he ▸ hk')⟩

/-- The notifications are the full batches of the subscriptions. -/
theorem mem_notify_iff {m : Monitor} {l : List RTNode} {e : Notice} (hq : obj.str .ri = some q)
    (hd : (l.filterMap subKey).Nodup) (hlen : ∀ k ∈ l.filterMap subKey, k.length ≤ 255) :
    e ∈ (notifyMissingData strtod m obj l 1 clock).2 ↔
      ∃ x ∈ l, ∃ r n d, x.ri = some r ∧ mdWanted strtod x = some (n, d) ∧
        n ≤ m.total q + 1 - ((m.window r).roll (m.total q + 1) 1 d (clock x.id)).reported ∧
        mdNotice obj x (m.total q + 1) ((m.window r).roll (m.total q + 1) 1 d (clock x.id)).reported n = some e := by
  by_cases hl : l = []
  · subst hl
    simp [notifyMissingData]
  · rw [notifyMissingData_eq hq hl, mem_visitChildren_iff _ _ hlen hd]
    constructor
    · rintro ⟨x, hx, he⟩
      cases hw : mdWanted strtod x with
      | none => rw [visitChild_skip (.inl hw)] at he; cases he
      | some w =>
        cases hr : x.ri with
        | none => rw [visitChild_skip (.inr hr)] at he; cases he
        | some r =>
          rw [visitChild_take hw hr] at he
          split at he
          · rename_i hn
            exact ⟨x, hx, r, w.1, w.2, hr, hw, hn, he⟩
          · cases he
    · rintro ⟨x, hx, r, n, d, hr, hw, hn, he⟩
      refine ⟨x, hx, ?_⟩
      rw [visitChild_take hw hr, if_pos]
      · exact he
      · exact hn

end Notify

/-! ## What an event does to one subscription -/

theorem windowOf_congr {x : RTNode} (h : ∀ r, x.ri = some r → s'.mon.window r = s.mon.window r) :
    s'.windowOf x = s.windowOf x := by
  unfold windowOf
  cases hr : x.ri with
  | none => rfl
  | some r => exact h r hr

theorem totalOf_eq_of_ne {m : Monitor} {e : Nat × Tracked} (hm : s'.mon.totals = m.totals)
    (h : ∀ r, e.2.obj.str .ri = some r → m.total r = s.mon.total r) : s'.totalOf e.2 = s.totalOf e.2 := by
  unfold totalOf
  cases hr : e.2.obj.str .ri with
  | none => rfl
  | some r =>
    refine Eq.trans ?_ (h r hr)
    unfold Monitor.total
    rw [← hm]
    rfl

/-- Is the event the detection of a missing point? -/
def detects : WatchAct → Bool
  | .detect .. => true
  | _ => false

theorem not_detect {act : WatchAct} (h : detects act = false) (ts : Nat) :
    ∀ time clock, act ≠ .detect ts time clock := by
  rintro time clock rfl
  cases h

/-- What an event does to the subscription `x` of the time series `e'` of the state it leads to. -/
inductive Fate (strtod : Strtod) (s s' : Watch) (act : WatchAct) (e' : Nat × Tracked) (x : RTNode) : Prop where
  /-- Nothing. -/
  | kept (e : Nat × Tracked) (mem : e ∈ s.series) (child : x ∈ e.2.children) (addr : e'.1 = e.1)
      (quiet : ∀ time clock, act ≠ .detect e.1 time clock)
      (window : s'.windowOf x = s.windowOf x) (total : s'.totalOf e'.2 = s.totalOf e.2) (held : e'.2.held = e.2.held)
      (sent : ∀ r ∈ s'.sent, r ∈ s.sent ∨ r.sub.id ≠ x.id)
  /-- The running total is forgotten. -/
  | forgotten (e : Nat × Tracked) (body : Obj) (now : CStr) (kept : Json → List Json) (mem : e ∈ s.series)
      (child : x ∈ e.2.children) (addr : e'.1 = e.1) (act : act = .updateTs e.1 body now kept)
      (mdd : body.has .mdd = true) (window : s'.windowOf x = s.windowOf x) (total : s'.totalOf e'.2 = 0)
      (sent : s'.sent = s.sent)
  /-- It is presented a new total. -/
  | presented (e : Nat × Tracked) (time : CStr) (clock : Nat → Int) (mem : e ∈ s.series) (child : x ∈ e.2.children)
      (addr : e'.1 = e.1) (act : act = .detect e.1 time clock)
      (window : ∀ r n d, x.ri = some r → mdWanted strtod x = some (n, d) →
        s'.windowOf x = (s.windowOf x).advance (s.totalOf e.2 + 1) n d (clock x.id))
      (total : s'.totalOf e'.2 = s.totalOf e.2 + 1) (state : s' = s.detect strtod e.1 e.2 time clock)
      (held : e'.2.held = trimTo e.2.obj (e.2.held ++ [⟨s.serial + 1, time, clock⟩]))
  /-- It is new. -/
  | created (e : Nat × Tracked) (mem : e ∈ s.series) (act : act = .createChild e.1 x)
      (fresh : Assoc.has s.born x.id = false)
      (window : ∀ w, mdWanted strtod x = some w → s'.windowOf x = .fresh) (total : s'.totalOf e'.2 = s.totalOf e.2)
      (born : Assoc.get s'.born x.id = some s.serial) (sent : s'.sent = s.sent)

section Fates

theorem mem_middle {α : Type} {a b : List α} {c e : α} : e ∈ a ++ c :: b ↔ e = c ∨ e ∈ a ++ b :=
  List.perm_middle.mem_iff.trans List.mem_cons

variable {e' : Nat × Tracked} {x : RTNode} {w : Int × Int}

theorem fate_detect (hs : s.Keyed) (ht : Assoc.get s.series ts = some t) (time : CStr) (clock : Nat → Int)
    (he : e' ∈ (s.detect strtod ts t time clock).series) (hx : x ∈ e'.2.children) (hw : mdWanted strtod x = some w) :
    Fate strtod s (s.detect strtod ts t time clock) (.detect ts time clock) e' x := by
  obtain ⟨a, b, hser, hset, _⟩ := split_series ht
  obtain ⟨hkd, hks, _⟩ := hs.children_keys hser
  have hmem : (ts, t) ∈ s.series := by rw [hser]; simp
  obtain ⟨q, hq, hqlen⟩ := hs.named (ts, t) hmem
  have hq' : (recordMissing t.obj time).str .ri = some q := (str_ri_recordMissing t.obj time).trans hq
  have hT : s.totalOf t = s.mon.total q := by
    unfold totalOf
    rw [hq]
    rfl
  have he₂ : e' ∈ a ++ (ts, ⟨recordMissing t.obj time, t.children,
      trimTo t.obj (t.held ++ [⟨s.serial + 1, time, clock⟩])⟩) :: b := hset _ ▸ he
  rcases mem_middle.mp he₂ with rfl | hab
  · -- a subscription of the time series itself
    refine .presented (ts, t) time clock hmem hx rfl rfl ?_ ?_ rfl rfl
    · intro r n d hr hnd
      unfold windowOf
      rw [hr, hT]
      exact notify_window hq' hkd hks hx hnd hr
    · rw [hT]
      unfold totalOf
      rw [hq']
      exact notify_total hq' hqlen (List.ne_nil_of_mem hx)
  · obtain ⟨hk, hid⟩ := hs.other_keys hser hab hx
    have hne : ts ≠ e'.1 := by
      have hd := hs.series
      rw [hser] at hd
      have hd := (List.perm_middle.map Prod.fst).nodup_iff.mp hd
      intro he
      exact (List.nodup_cons.mp hd).1 (List.mem_map.mpr ⟨e', hab, he.symm⟩)
    refine .kept e' (by rw [hser]; exact mem_middle.mpr (.inr hab)) hx rfl ?_ (windowOf_congr fun r hr => ?_) ?_ rfl ?_
    · rintro _ _ ⟨⟩
      exact hne rfl
    · obtain ⟨hk₁, hk₂⟩ := hk r ((subKey_of_wanted hw).trans hr)
      exact notify_window_of_not_mem hq' hks hk₁ hk₂
    · exact totalOf_eq_of_ne rfl fun r hr => notify_total_of_ne hq' hqlen (hs.other_name hser hab hq hr)
    · intro r hr
      rcases List.mem_append.mp hr with hr | hr
      · exact .inl hr
      · obtain ⟨n, _, hn⟩ := List.mem_filterMap.mp hr
        obtain ⟨c, hc, rfl⟩ := Option.map_eq_some_iff.mp hn
        refine .inr fun he => hid ?_
        rw [← he]
        exact List.mem_map_of_mem (List.mem_of_find?_eq_some hc)

theorem fate_updateTs (hs : s.Keyed) {body : Obj} {now : CStr} {kept : Json → List Json}
    (hp : s.proper (.updateTs ts body now kept) = true) (h : s.step strtod (.updateTs ts body now kept) = some s')
    (he : e' ∈ s'.series) (hx : x ∈ e'.2.children) : Fate strtod s s' (.updateTs ts body now kept) e' x := by
  simp only [step, Option.bind_eq_bind, Option.bind_eq_some_iff] at h
  obtain ⟨t, ht, h⟩ := h
  split at h
  · cases h
    exact .kept e' he hx rfl (not_detect rfl _) rfl rfl rfl fun r hr => .inl hr
  · rename_i obj hu
    cases h
    obtain ⟨a, b, hser, hset, _⟩ := split_series ht
    have hmem : (ts, t) ∈ s.series := by rw [hser]; simp
    obtain ⟨q, hq, hqlen⟩ := hs.named (ts, t) hmem
    have hri : obj.str .ri = t.obj.str .ri := (updatedTs_ok hu).1 (Assoc.has_eq_false.mp (by simpa [proper] using hp))
    have hwin : ∀ r, (if body.has .mdd then s.mon.tsForgetMissingTotal (t.obj.str .ri) else s.mon).window r =
        s.mon.window r := by
      intro r
      split
      · rw [hq]; rfl
      · rfl
    rw [hset] at he
    rcases mem_middle.mp he with rfl | hab
    · by_cases hm : body.has .mdd = true
      · refine .forgotten (ts, t) body now kept hmem hx rfl rfl hm (windowOf_congr fun r _ => hwin r) ?_ rfl
        show ((obj.str .ri).map _).getD 0 = 0
        rw [hri, hq, if_pos hm]
        show (Assoc.get (Assoc.del s.mon.totals q) q).getD 0 = 0
        rw [Assoc.get_eq_none_iff.mpr (Assoc.not_mem_keys_del hs.totals.1 q)]
        rfl
      · have hoff : (body.get .mdd).any mddOn = false := by
          rw [show body.get .mdd = none from Assoc.has_eq_false.mp (by simpa using hm)]
          rfl
        refine .kept (ts, t) hmem hx rfl (not_detect rfl _) (windowOf_congr fun r _ => hwin r) ?_
          (by simp [hoff]) fun r hr => .inl hr
        show ((obj.str .ri).map _).getD 0 = ((t.obj.str .ri).map _).getD 0
        rw [hri, if_neg hm]
    · refine .kept e' (by rw [hser]; exact mem_middle.mpr (.inr hab)) hx rfl (not_detect rfl _)
        (windowOf_congr fun r _ => hwin r) ?_ rfl fun r hr => .inl hr
      refine totalOf_eq_of_ne rfl fun r hr => ?_
      dsimp only
      split
      · rw [hq]
        unfold Monitor.total Monitor.tsForgetMissingTotal
        rw [Assoc.get_del_ne (hs.other_name hser hab hq hr)]
      · rfl

theorem fate_deleteTs (hs : s.Keyed) (h : s.step strtod (.deleteTs ts) = some s') (he : e' ∈ s'.series)
    (hx : x ∈ e'.2.children) (hw : mdWanted strtod x = some w) : Fate strtod s s' (.deleteTs ts) e' x := by
  simp only [step, Option.bind_eq_bind, Option.bind_eq_some_iff] at h
  obtain ⟨t, ht, h⟩ := h
  cases h
  obtain ⟨a, b, hser, _, hdel⟩ := split_series ht
  rw [hdel] at he
  obtain ⟨hk, _⟩ := hs.other_keys hser he hx
  have hmem : (ts, t) ∈ s.series := by rw [hser]; simp
  obtain ⟨q, hq, hqlen⟩ := hs.named (ts, t) hmem
  obtain ⟨h₁, _, _, h₄⟩ := foldl_forgetChild t.obj t.children hs.windows.1
  refine .kept e' (by rw [hser]; exact mem_middle.mpr (.inr he)) hx rfl (not_detect rfl _)
    (windowOf_congr fun r hr => ?_) ?_ rfl fun r hr => .inl hr
  · dsimp only
    rw [hq]
    exact h₄ r (hk r ((subKey_of_wanted hw).trans hr)).2
  · refine totalOf_eq_of_ne rfl fun r hr => ?_
    dsimp only
    rw [hq]
    unfold Monitor.total Monitor.tsForgetMissingTotal
    rw [Assoc.get_del_ne (hs.other_name hser he hq hr), h₁]

theorem fate_createChild (hs : s.Keyed) {c : RTNode} (hp : s.proper (.createChild ts c) = true)
    (h : s.step strtod (.createChild ts c) = some s') (he : e' ∈ s'.series) (hx : x ∈ e'.2.children) :
    Fate strtod s s' (.createChild ts c) e' x := by
  simp only [step, Option.bind_eq_bind, Option.bind_eq_some_iff] at h
  obtain ⟨t, ht, h⟩ := h
  split at h
  · rename_i hc
    cases h
    obtain ⟨a, b, hser, hset, _⟩ := split_series ht
    have hmem : (ts, t) ∈ s.series := by rw [hser]; simp
    rw [hset] at he
    rcases mem_middle.mp he with rfl | hab
    · have hr := roots_insertChild c (Forest.ofList t.children)
      rw [Forest.roots_ofList] at hr
      rcases List.mem_cons.mp (hr.subset hx) with rfl | hx
      · refine .created (ts, t) hmem rfl hc.2 ?_ rfl (by simp) rfl
        -- no entry can be there for a key that no subscription has
        intro w hw
        show (x.ri.map _).getD _ = _
        cases hri : x.ri with
        | none => rfl
        | some r =>
          have hk : subKey x = some r := (subKey_of_wanted hw).trans hri
          simp only [proper, hk, Option.all_some] at hp
          have hp := short_unused hp
          show (Assoc.get s.mon.windows r).getD _ = _
          rw [Assoc.get_eq_none_iff.mpr fun hm => hp.2 (hs.windows.2 r hm)]
          rfl
      · exact .kept (ts, t) hmem hx rfl (not_detect rfl _) rfl rfl rfl fun r hr => .inl hr
    · exact .kept e' (by rw [hser]; exact mem_middle.mpr (.inr hab)) hx rfl (not_detect rfl _) rfl rfl rfl fun r hr => .inl hr
  · cases h

theorem fate_deleteChild (hs : s.Keyed) {id : Nat} (h : s.step strtod (.deleteChild ts id) = some s') (he : e' ∈ s'.series)
    (hx : x ∈ e'.2.children) (hw : mdWanted strtod x = some w) : Fate strtod s s' (.deleteChild ts id) e' x := by
  simp only [step, Option.bind_eq_bind, Option.bind_eq_some_iff] at h
  obtain ⟨t, ht, c, hc, h⟩ := h
  cases h
  obtain ⟨a, b, hser, hset, _⟩ := split_series ht
  have hmem : (ts, t) ∈ s.series := by rw [hser]; simp
  have hcm : c ∈ t.children := List.mem_of_find?_eq_some hc
  have hcid : c.id = id := by simpa [RTNode.hasId] using List.find?_some hc
  obtain ⟨h₁, _, _, h₄⟩ := foldl_forgetChild t.obj [c] hs.windows.1
  have htot : (forgetChild t.obj s.mon c).totals = s.mon.totals := h₁
  have hwin : (∀ k, subKey x = some k → k ∉ [c].filterMap subKey) → ∀ r, x.ri = some r →
      (forgetChild t.obj s.mon c).window r = s.mon.window r := fun hk r hr => h₄ r (hk r ((subKey_of_wanted hw).trans hr))
  have htotal : ∀ r, (forgetChild t.obj s.mon c).total r = s.mon.total r := by
    intro r
    unfold Monitor.total
    rw [htot]
  rw [hset] at he
  rcases mem_middle.mp he with rfl | hab
  · obtain ⟨hxt, hxid⟩ := List.mem_filter.mp hx
    refine .kept (ts, t) hmem hxt rfl (not_detect rfl _) (windowOf_congr (hwin fun k hk hm => ?_)) ?_ rfl
      fun r hr => .inl hr
    · -- another child of the same time series has another key
      obtain ⟨c', hc', hck⟩ := List.mem_filterMap.mp hm
      cases List.mem_singleton.mp hc'
      have hne : x ≠ c := by
        rintro rfl
        simp [hcid] at hxid
      exact hne (key_inj (hs.children_keys hser).1 hxt hcm hk hck)
    · unfold totalOf
      cases hr : t.obj.str .ri with
      | none => rfl
      | some r => exact htotal r
  · obtain ⟨hk, _⟩ := hs.other_keys hser hab hx
    refine .kept e' (by rw [hser]; exact mem_middle.mpr (.inr hab)) hx rfl (not_detect rfl _)
      (windowOf_congr (hwin fun k hk' hm => ?_)) ?_ rfl fun r hr => .inl hr
    · refine (hk k hk').2 (((List.singleton_sublist.mpr hcm).filterMap _).subset hm)
    · exact totalOf_eq_of_ne rfl fun r _ => htotal r

/-- What a proper event does to a subscription. -/
theorem Keyed.fate (hs : s.Keyed) {act : WatchAct} (hp : s.proper act = true) (h : s.step strtod act = some s')
    (he : e' ∈ s'.series) (hx : x ∈ e'.2.children) (hw : mdWanted strtod x = some w) : Fate strtod s s' act e' x := by
  cases act with
  | detect ts time clock =>
    simp only [Watch.step, Option.bind_eq_bind, Option.bind_eq_some_iff] at h
    obtain ⟨t, ht, h⟩ := h
    split at h
    · cases h
      exact fate_detect hs ht time clock he hx hw
    · cases h
  | createTs ts obj =>
    simp only [Watch.step] at h
    split at h
    · cases h
    · cases h
      rcases List.mem_cons.mp he with rfl | he
      · cases hx
      · exact .kept e' he hx rfl (not_detect rfl _) rfl rfl rfl fun r hr => .inl hr
  | updateTs ts body now kept => exact fate_updateTs hs hp h he hx
  | deleteTs ts => exact fate_deleteTs hs h he hx hw
  | createChild ts c => exact fate_createChild hs hp h he hx
  | deleteChild ts id => exact fate_deleteChild hs h he hx hw

end Fates

end Watch

end TinyIoT
