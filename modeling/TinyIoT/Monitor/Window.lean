/-
The missing-data notifications of `monitor.c`: the running total of missing points of each time series,
the window of each subscription that counts towards `enc/md/num`, and `notify_missing_data`, which
presents a new total to the subscriptions of a time series one after another. An entry of either list
keeps the first 255 characters of the identifier it is for; it is looked up by the whole identifier.
-/
import TinyIoT.Resource.TimeSeries

namespace TinyIoT

/-- `sub_md_notify_throttle_entry_t`: the points a subscription has accounted for, and the start of its
window, 0 when none is open. -/
structure Window where
  reported : Int
  start : Int
  deriving DecidableEq, Repr

/-- The window of a subscription that has no entry yet. -/
def Window.fresh : Window := ⟨0, 0⟩

/-- The lists of `monitor.c`: `g_ts_miss_throttle` and `g_sub_md_notify_throttle`. -/
structure Monitor where
  totals : List (CStr × Int)
  windows : List (CStr × Window)
  deriving DecidableEq, Repr

/-- The identifier as an entry keeps it. -/
def entryRi (ri : CStr) : CStr := ri.take 255

theorem entryRi_eq {ri : CStr} (h : ri.length ≤ 255) : entryRi ri = ri := List.take_of_length_le h

/-- The entry of `ri` takes the value `v`; where there is none it goes to the head of the list. -/
def putEntry {β : Type} (m : List (CStr × β)) (ri : CStr) (v : β) : List (CStr × β) :=
  if Assoc.has m ri then Assoc.set m ri v else (entryRi ri, v) :: m

theorem get_putEntry_self {β : Type} {m : List (CStr × β)} {ri : CStr} {v : β} (h : ri.length ≤ 255) :
    Assoc.get (putEntry m ri v) ri = some v := by
  unfold putEntry
  by_cases hm : Assoc.has m ri = true
  · obtain ⟨w, hw⟩ := Assoc.has_iff.mp hm
    rw [if_pos hm]
    exact Assoc.get_set_self hw
  · rw [if_neg hm, entryRi_eq h]
    simp

theorem get_putEntry_ne {β : Type} {m : List (CStr × β)} {ri ri' : CStr} {v : β} (h : ri.length ≤ 255)
    (hne : ri ≠ ri') : Assoc.get (putEntry m ri v) ri' = Assoc.get m ri' := by
  unfold putEntry
  split
  · exact Assoc.get_set_ne hne
  · rw [entryRi_eq h]
    simp [hne]

namespace Window

/-- The window ran out before the point detected now: what it counted is given up. -/
def expired (w : Window) (dur now : Int) : Bool := 0 < w.start ∧ 0 < dur ∧ dur < now - w.start

/-- The first part of `md_window_take`: a window that ran out is closed, and one is open afterwards. -/
def roll (w : Window) (total new dur now : Int) : Window :=
  let w := if w.expired dur now then
      Window.mk (if 0 < total - new - w.reported then total - new else w.reported) 0
    else w
  if w.start = 0 then { w with start := now } else w

/-- The second part: a full batch is taken and the window closes. -/
def settle (w : Window) (total num : Int) : Window × Int :=
  if num ≤ total - w.reported then (⟨w.reported + num, 0⟩, num) else (w, 0)

theorem reported_roll (w : Window) (total new dur now : Int) : (w.roll total new dur now).reported =
    if w.expired dur now ∧ 0 < total - new - w.reported then total - new else w.reported := by
  unfold roll
  by_cases h : w.expired dur now = true
  · simp only [h, if_true, true_and]
  · simp only [h, Bool.false_eq_true, if_false, false_and]
    split <;> rfl

theorem start_roll (w : Window) (total new dur now : Int) : (w.roll total new dur now).start =
    if w.expired dur now ∨ w.start = 0 then now else w.start := by
  unfold roll
  by_cases h : w.expired dur now = true
  · simp only [h, if_true, true_or]
  · simp only [h, Bool.false_eq_true, if_false, false_or]
    split <;> rfl

end Window

namespace Monitor

/-- The running total of a time series, 0 where there is none. -/
def total (m : Monitor) (ri : CStr) : Int := (Assoc.get m.totals ri).getD 0

/-- The window of a subscription. -/
def window (m : Monitor) (ri : CStr) : Window := (Assoc.get m.windows ri).getD .fresh

/-- `ts_add_missing_total`. -/
def tsAddMissingTotal (m : Monitor) (ri : Option CStr) (n : Int) : Monitor × Int :=
  match ri with
  | none => (m, 0)
  | some ri =>
    if n ≤ 0 then (m, 0)
    else ({ m with totals := putEntry m.totals ri (m.total ri + n) }, m.total ri + n)

/-- `ts_forget_missing_total`, which is also what `ts_md_disarm` does to these lists. -/
def tsForgetMissingTotal (m : Monitor) (ri : Option CStr) : Monitor :=
  match ri with
  | none => m
  | some ri => { m with totals := Assoc.del m.totals ri }

/-- `md_window_take`: how many points to report, and the count the subscription stood at before. -/
def mdWindowTake (m : Monitor) (subRi : Option CStr) (tsTotal new num dur now : Int) : Monitor × Int × Int :=
  match subRi with
  | none => (m, 0, 0)
  | some ri =>
    if num ≤ 0 then (m, 0, 0)
    else
      let w := (m.window ri).roll tsTotal new dur now
      let r := w.settle tsTotal num
      ({ m with windows := putEntry m.windows ri r.1 }, r.2, if 0 < r.2 then w.reported else 0)

/-- `md_pending`. -/
def mdPending (m : Monitor) (subRi : CStr) (tsTotal : Int) : Int := max 0 (tsTotal - (m.window subRi).reported)

/-- `md_forget`. -/
def mdForget (m : Monitor) (subRi : CStr) : Monitor := { m with windows := Assoc.del m.windows subRi }

end Monitor

/-! ## What a subscription asks for -/

/-- `strtod`: the number at the start of a string and what follows it, where there is one. -/
abbrev Strtod := CStr → Option (ℚ × CStr)

/-- `parse_md_dur_to_us`: a duration `PT<value>S` in microseconds, 0 for anything else. -/
def parseMdDurToUs (strtod : Strtod) : CStr → Int
  | 'P' :: 'T' :: p => match strtod p with
    | some (sec, 'S' :: _) => if sec ≤ 0 then 0 else (sec * 1000000).num.tdiv (sec * 1000000).den
    | _ => 0
  | _ => 0

/-- The object `notify_missing_data` reads the subscription from. -/
def subObj (sub : RTNode) : Json := (sub.obj.get (.other "m2m:sub".toList)).getD (.obj sub.obj)

/-- `net` has the event type of missing data points. -/
def netHas8 (net : Option Json) : Bool :=
  match net with
  | some (.arr l) => l.any fun j => j.isNumber && j.valueint = 8
  | _ => false

/-- The threshold and the window of a subscription for missing data points, if it is one. -/
def mdWanted (strtod : Strtod) (sub : RTNode) : Option (Int × Int) :=
  let enc := (subObj sub).member .enc
  let md := enc.bind (·.member .md)
  let num := match md.bind (·.member (.other "num".toList)) with
    | some (.num v) => (Json.num v).valueint
    | _ => 0
  let dur := match md.bind (·.member (.other "dur".toList)) with
    | some (.str s) => parseMdDurToUs strtod s
    | _ => 0
  if sub.ty = .sub ∧ netHas8 (enc.bind (·.member .net)) ∧ 0 < num then some (num, dur) else none

theorem mdWanted_pos {strtod : Strtod} {sub : RTNode} {n d : Int} (h : mdWanted strtod sub = some (n, d)) : 0 < n := by
  unfold mdWanted at h
  simp only [Option.ite_none_right_eq_some, Option.some.injEq, Prod.mk.injEq] at h
  obtain ⟨⟨_, _, hn⟩, rfl, _⟩ := h
  exact hn

/-- A subscription for missing points with a threshold and, where given, a duration. -/
def missingSub (id : Nat) (ri : CStr) (num : Int) (dur : Obj) : RTNode :=
  ⟨id, .sub, ri, ri, [(.ri, .str ri), (.nu, .arr [.str "CAE".toList]),
    (.enc, .obj [(.net, .arr [.int 8]), (.md, .obj ((.other "num".toList, .int num) :: dur))])], [], [], 0⟩

/-- The list of missing points of a time series; it is empty when it is no array. -/
def mdltOf (ts : Obj) : List Json :=
  match ts.get .mdlt with
  | some (.arr l) => l
  | _ => []

/-! ## Notification -/

/-- A missing-data notification: whom it goes to, where in `mdlt` its batch starts, how many entries it
takes from there, and the points it names. -/
structure Notice where
  sub : Nat
  start : Nat
  len : Nat
  points : List CStr
  deriving DecidableEq, Repr

/-- `md_send_notification`. -/
def mdSendNotification (sub : RTNode) (mdlt : List Json) (start len : Nat) : Notice :=
  ⟨sub.id, start, len, ((mdlt.drop start).take len).filterMap Json.valuestring⟩

/-- The batch of a subscription located in `mdlt`: the oldest entries still pending. Entries that `mdn`
dropped are left out. -/
def mdBatch (mdltLen : Nat) (total before batch : Int) : Nat × Nat :=
  let start := max 0 (mdltLen - cInt (total - before))
  (start.toNat, (min batch (mdltLen - start)).toNat)

/-- What one subscription is given in a call: the count before and the size of the batch. -/
structure Visit where
  mon : Monitor
  taken : Option (Int × Int)
  notice : Option Notice

/-- The notification of a batch: none when nothing of it is left in `mdlt` or there is nobody to send to. -/
def mdNotice (ts : Obj) (sub : RTNode) (total before batch : Int) : Option Notice :=
  let b := mdBatch (mdltOf ts).length total before batch
  if 0 < b.2 ∧ ((subObj sub).member .nu).any Json.isArray then some (mdSendNotification sub (mdltOf ts) b.1 b.2)
  else none

/-- One pass of the loop of `notify_missing_data` over the children. -/
def visitChild (strtod : Strtod) (ts : Obj) (total new now : Int) (m : Monitor) (child : RTNode) : Visit :=
  match mdWanted strtod child with
  | none => ⟨m, none, none⟩
  | some (num, dur) =>
    let (m, batch, before) := m.mdWindowTake child.ri total new num dur now
    if batch ≤ 0 then ⟨m, none, none⟩
    else ⟨m, some (before, batch), mdNotice ts child total before batch⟩

/-- The loop of `notify_missing_data`; each subscription reads the clock anew. -/
def visitChildren (strtod : Strtod) (ts : Obj) (total new : Int) (clock : Nat → Int) :
    Monitor → List RTNode → Monitor × List Notice
  | m, [] => (m, [])
  | m, c :: l =>
    let v := visitChild strtod ts total new (clock c.id) m c
    let r := visitChildren strtod ts total new clock v.mon l
    (r.1, v.notice.toList ++ r.2)

/-- The increment of a call. -/
def newCount (n : Int) : Int := if 0 < n then n else 1

/-- `notify_missing_data` for a time series with these children. -/
def notifyMissingData (strtod : Strtod) (m : Monitor) (ts : Obj) (children : List RTNode) (new : Int)
    (clock : Nat → Int) : Monitor × List Notice :=
  if children.isEmpty then (m, [])
  else
    let (m, total) := m.tsAddMissingTotal (ts.str .ri) (newCount new)
    visitChildren strtod ts total (newCount new) clock m children

/-- `ts_md_flush_sub` of a subscription below a time series: what is pending is sent, and the entry goes. -/
def tsMdFlushSub (m : Monitor) (ts : Obj) (sub : RTNode) : Monitor × Option Notice :=
  match sub.ri with
  | none => (m, none)
  | some ri =>
    let net := (sub.obj.get .enc).bind (·.member .net)
    let total := ((ts.str .ri).map m.total).getD 0
    let pending := m.mdPending ri total
    let mdlt := mdltOf ts
    (m.mdForget ri,
      if netHas8 net ∧ (sub.obj.get .nu).any Json.isArray ∧ 0 < pending ∧ mdlt ≠ [] then
        let len := if mdlt.length < pending then mdlt.length else (cInt pending).toNat
        some (mdSendNotification sub mdlt (mdlt.length - len) len)
      else none)

/-! ## Entries -/

namespace Monitor

theorem window_putEntry_self {m : Monitor} {ri : CStr} {w : Window} (h : ri.length ≤ 255) :
    ({ m with windows := putEntry m.windows ri w } : Monitor).window ri = w := by
  unfold window
  rw [get_putEntry_self h]
  rfl

theorem window_putEntry_of_ne {m : Monitor} {ri ri' : CStr} {w : Window} (h : ri'.length ≤ 255)
    (hne : entryRi ri ≠ ri') : ({ m with windows := putEntry m.windows ri w } : Monitor).window ri' = m.window ri' := by
  have hne' : ri ≠ ri' := by
    rintro rfl
    exact hne (entryRi_eq h)
  unfold window putEntry
  split
  · rw [Assoc.get_set_ne hne']
  · simp [hne]

end Monitor

/-! ## One visit -/

section Visits

variable {strtod : Strtod} {ts : Obj} {total new now : Int} {m : Monitor} {x : RTNode}

/-- A child that does not ask for missing points, or has no identifier, is passed over. -/
theorem visitChild_skip (h : mdWanted strtod x = none ∨ x.ri = none) :
    visitChild strtod ts total new now m x = ⟨m, none, none⟩ := by
  unfold visitChild Monitor.mdWindowTake
  cases hw : mdWanted strtod x with
  | none => rfl
  | some w =>
    have hri : x.ri = none := h.resolve_left (by simp [hw])
    rw [hri]
    rfl

/-- A visit rolls the window of the subscription, and takes a batch from it when it is full. -/
theorem visitChild_take {ri : CStr} {n d : Int} (hw : mdWanted strtod x = some (n, d)) (hri : x.ri = some ri) :
    visitChild strtod ts total new now m x =
      if n ≤ total - ((m.window ri).roll total new d now).reported then
        ⟨{ m with windows := putEntry m.windows ri ⟨((m.window ri).roll total new d now).reported + n, 0⟩ },
          some (((m.window ri).roll total new d now).reported, n),
          mdNotice ts x total ((m.window ri).roll total new d now).reported n⟩
      else ⟨{ m with windows := putEntry m.windows ri ((m.window ri).roll total new d now) }, none, none⟩ := by
  have hn := mdWanted_pos hw
  unfold visitChild Monitor.mdWindowTake
  simp only [hw, hri, if_neg (Int.not_le.mpr hn)]
  generalize (m.window ri).roll total new d now = w
  unfold Window.settle
  by_cases h : n ≤ total - w.reported
  · simp only [if_pos h, if_pos hn, if_neg (Int.not_le.mpr hn)]
  · simp only [if_neg h, Int.le_refl, if_true]

@[simp] theorem visitChild_totals : (visitChild strtod ts total new now m x).mon.totals = m.totals := by
  cases hw : mdWanted strtod x with
  | none => rw [visitChild_skip (.inl hw)]
  | some w =>
    cases hri : x.ri with
    | none => rw [visitChild_skip (.inr hri)]
    | some ri =>
      rw [visitChild_take hw hri]
      split <;> rfl

/-- A visit leaves the windows of other subscriptions as they are. -/
theorem visitChild_window_of_ne {ri : CStr} (h : ri.length ≤ 255) (hne : ∀ r, x.ri = some r → entryRi r ≠ ri) :
    (visitChild strtod ts total new now m x).mon.window ri = m.window ri := by
  cases hw : mdWanted strtod x with
  | none => rw [visitChild_skip (.inl hw)]
  | some w =>
    cases hri : x.ri with
    | none => rw [visitChild_skip (.inr hri)]
    | some r =>
      rw [visitChild_take hw hri]
      split
      · exact Monitor.window_putEntry_of_ne h (hne r hri)
      · exact Monitor.window_putEntry_of_ne h (hne r hri)

/-- What a visit gives depends on the monitor by the window of the subscription only. -/
theorem visitChild_congr {m' : Monitor} (h : ∀ r, x.ri = some r → m'.window r = m.window r) :
    (visitChild strtod ts total new now m' x).notice = (visitChild strtod ts total new now m x).notice ∧
      ∀ r, x.ri = some r → r.length ≤ 255 →
        (visitChild strtod ts total new now m' x).mon.window r = (visitChild strtod ts total new now m x).mon.window r := by
  cases hw : mdWanted strtod x with
  | none => rw [visitChild_skip (.inl hw), visitChild_skip (.inl hw)]; exact ⟨rfl, fun r hr _ => h r hr⟩
  | some w =>
    cases hri : x.ri with
    | none => rw [visitChild_skip (.inr hri), visitChild_skip (.inr hri)]; exact ⟨rfl, fun r hr => by cases hr⟩
    | some r =>
      rw [visitChild_take hw hri, visitChild_take hw hri, h r hri]
      split
      · refine ⟨rfl, fun r' hr' hlen => ?_⟩
        cases hr'
        rw [Monitor.window_putEntry_self hlen, Monitor.window_putEntry_self hlen]
      · refine ⟨rfl, fun r' hr' hlen => ?_⟩
        cases hr'
        rw [Monitor.window_putEntry_self hlen, Monitor.window_putEntry_self hlen]

end Visits

/-! ## The loop -/

/-- The identifier of a subscription, by which the list of windows knows it. -/
def subKey (x : RTNode) : Option CStr := if x.ty = .sub then x.ri else none

theorem mdWanted_sub {strtod : Strtod} {x : RTNode} {w : Int × Int} (h : mdWanted strtod x = some w) : x.ty = .sub := by
  unfold mdWanted at h
  simp only [Option.ite_none_right_eq_some] at h
  exact h.1.1

theorem subKey_of_wanted {strtod : Strtod} {x : RTNode} {w : Int × Int} (h : mdWanted strtod x = some w) :
    subKey x = x.ri := by
  unfold subKey
  rw [if_pos (mdWanted_sub h)]

section Loop

variable {strtod : Strtod} {ts : Obj} {total new : Int} {clock : Nat → Int}

theorem visitChildren_totals (m : Monitor) (l : List RTNode) :
    (visitChildren strtod ts total new clock m l).1.totals = m.totals := by
  induction l generalizing m with
  | nil => rfl
  | cons c l ih => exact (ih _).trans visitChild_totals

theorem visitChild_notice_sub {m : Monitor} {now : Int} {c : RTNode} {e : Notice}
    (h : (visitChild strtod ts total new now m c).notice = some e) : e.sub = c.id := by
  cases hw : mdWanted strtod c with
  | none => rw [visitChild_skip (.inl hw)] at h; cases h
  | some w =>
    cases hri : c.ri with
    | none => rw [visitChild_skip (.inr hri)] at h; cases h
    | some r =>
      rw [visitChild_take hw hri] at h
      split at h
      · simp only [mdNotice, Option.ite_none_right_eq_some, Option.some.injEq] at h
        rw [← h.2]
        rfl
      · cases h

/-- The notifications of a call go to children, each at most once and in their order. -/
theorem visitChildren_subs (m : Monitor) (l : List RTNode) :
    ((visitChildren strtod ts total new clock m l).2.map Notice.sub).Sublist (l.map RTNode.id) := by
  induction l generalizing m with
  | nil => exact List.Sublist.refl _
  | cons c l ih =>
    show (((visitChild strtod ts total new (clock c.id) m c).notice.toList ++ _).map Notice.sub).Sublist _
    rw [List.map_append]
    cases he : (visitChild strtod ts total new (clock c.id) m c).notice with
    | none => exact (ih _).cons _
    | some e =>
      have := (ih (visitChild strtod ts total new (clock c.id) m c).mon).cons_cons c.id
      simpa [visitChild_notice_sub he] using this

/-- A visit leaves the window of a subscription with another key. -/
theorem visitChild_window_of_key_ne {ri : CStr} {m : Monitor} {now : Int} {c : RTNode} (hlen : ri.length ≤ 255)
    (h : ∀ r, subKey c = some r → r.length ≤ 255 ∧ r ≠ ri) :
    (visitChild strtod ts total new now m c).mon.window ri = m.window ri := by
  cases hw : mdWanted strtod c with
  | none => rw [visitChild_skip (.inl hw)]
  | some w =>
    refine visitChild_window_of_ne hlen fun r hr => ?_
    obtain ⟨hr₁, hr₂⟩ := h r ((subKey_of_wanted hw).trans hr)
    rwa [entryRi_eq hr₁]

/-- The loop leaves the window of a subscription that is not visited. -/
theorem visitChildren_window_of_not_mem {ri : CStr} (hlen : ri.length ≤ 255) (m : Monitor) (l : List RTNode)
    (h : ∀ k ∈ l.filterMap subKey, k.length ≤ 255 ∧ k ≠ ri) :
    (visitChildren strtod ts total new clock m l).1.window ri = m.window ri := by
  induction l generalizing m with
  | nil => rfl
  | cons c l ih =>
    have hc : ∀ r, subKey c = some r → r.length ≤ 255 ∧ r ≠ ri := fun r hr =>
      h r (List.mem_filterMap.mpr ⟨c, List.mem_cons_self, hr⟩)
    have hl : ∀ k ∈ l.filterMap subKey, k.length ≤ 255 ∧ k ≠ ri := by
      intro k hk
      obtain ⟨x, hx, hxk⟩ := List.mem_filterMap.mp hk
      exact h k (List.mem_filterMap.mpr ⟨x, List.mem_cons_of_mem c hx, hxk⟩)
    exact (ih _ hl).trans (visitChild_window_of_key_ne hlen hc)

/-- The keys of the tail are short and other than the head's. -/
theorem keys_of_cons {c : RTNode} {l : List RTNode} (hlen : ∀ k ∈ (c :: l).filterMap subKey, k.length ≤ 255)
    (hd : ((c :: l).filterMap subKey).Nodup) :
    (∀ k ∈ l.filterMap subKey, k.length ≤ 255) ∧ (l.filterMap subKey).Nodup ∧
      ∀ r, subKey c = some r → r.length ≤ 255 ∧ ∀ k ∈ l.filterMap subKey, k ≠ r := by
  cases hk : subKey c with
  | none =>
    rw [List.filterMap_cons_none hk] at hlen hd
    exact ⟨hlen, hd, fun r hr => by cases hr⟩
  | some r =>
    rw [List.filterMap_cons_some hk] at hlen hd
    obtain ⟨hr, hd⟩ := List.nodup_cons.mp hd
    refine ⟨fun k hk => hlen k (List.mem_cons_of_mem r hk), hd, ?_⟩
    rintro r' ⟨⟩
    exact ⟨hlen r List.mem_cons_self, fun k hk he => hr (he ▸ hk)⟩

/-- With distinct keys every subscription is visited as if it were the only one. -/
theorem visitChildren_window {ri : CStr} {c : RTNode} (m : Monitor) (l : List RTNode)
    (hlen : ∀ k ∈ l.filterMap subKey, k.length ≤ 255) (hd : (l.filterMap subKey).Nodup) (hc : c ∈ l)
    (hk : subKey c = some ri) :
    (visitChildren strtod ts total new clock m l).1.window ri =
      (visitChild strtod ts total new (clock c.id) m c).mon.window ri := by
  induction l generalizing m with
  | nil => cases hc
  | cons x l ih =>
    obtain ⟨hlen', hd', hx⟩ := keys_of_cons hlen hd
    rcases List.mem_cons.mp hc with rfl | hc
    · obtain ⟨hr, hne⟩ := hx ri hk
      exact visitChildren_window_of_not_mem hr _ l fun k hkl => ⟨hlen' k hkl, hne k hkl⟩
    · have hkl : ri ∈ l.filterMap subKey := List.mem_filterMap.mpr ⟨c, hc, hk⟩
      have hri := hlen' ri hkl
      refine (ih _ hlen' hd' hc).trans ((visitChild_congr fun r hr => ?_).2 ri ?_ hri)
      · have hrk : r = ri := by
          unfold subKey at hk
          split at hk
          · exact Option.some.inj (hr.symm.trans hk)
          · cases hk
        subst hrk
        exact visitChild_window_of_key_ne hri fun r' hr' => ⟨(hx r' hr').1, Ne.symm ((hx r' hr').2 r hkl)⟩
      · unfold subKey at hk
        split at hk
        · exact hk
        · cases hk

/-- The visit to a child is not changed by an earlier one to a child with another key. -/
theorem notice_after_visit {m : Monitor} {now : Int} {c x : RTNode} {l : List RTNode}
    (hlen : ∀ k ∈ (x :: l).filterMap subKey, k.length ≤ 255) (hd : ((x :: l).filterMap subKey).Nodup) (hc : c ∈ l) :
    (visitChild strtod ts total new (clock c.id) (visitChild strtod ts total new now m x).mon c).notice =
      (visitChild strtod ts total new (clock c.id) m c).notice := by
  obtain ⟨hlen', hd', hx⟩ := keys_of_cons hlen hd
  cases hw : mdWanted strtod c with
  | none => rw [visitChild_skip (.inl hw), visitChild_skip (.inl hw)]
  | some w =>
    refine (visitChild_congr fun r hr => ?_).1
    have hkl : r ∈ l.filterMap subKey := List.mem_filterMap.mpr ⟨c, hc, (subKey_of_wanted hw).trans hr⟩
    exact visitChild_window_of_key_ne (hlen' r hkl) fun r' hr' => ⟨(hx r' hr').1, Ne.symm ((hx r' hr').2 r hkl)⟩

/-- The notifications of a call are those of the visits to the children. -/
theorem mem_visitChildren_iff {e : Notice} (m : Monitor) (l : List RTNode)
    (hlen : ∀ k ∈ l.filterMap subKey, k.length ≤ 255) (hd : (l.filterMap subKey).Nodup) :
    e ∈ (visitChildren strtod ts total new clock m l).2 ↔
      ∃ c ∈ l, (visitChild strtod ts total new (clock c.id) m c).notice = some e := by
  induction l generalizing m with
  | nil => simp [visitChildren]
  | cons x l ih =>
    obtain ⟨hlen', hd', _⟩ := keys_of_cons hlen hd
    show e ∈ (visitChild strtod ts total new (clock x.id) m x).notice.toList ++ _ ↔ _
    rw [List.mem_append, Option.mem_toList, ih _ hlen' hd']
    constructor
    · rintro (he | ⟨c, hc, he⟩)
      · exact ⟨x, List.mem_cons_self, he⟩
      · exact ⟨c, List.mem_cons_of_mem x hc, (notice_after_visit hlen hd hc).symm.trans he⟩
    · rintro ⟨c, hc, he⟩
      rcases List.mem_cons.mp hc with rfl | hc
      · exact .inl he
      · exact .inr ⟨c, hc, (notice_after_visit hlen hd hc).trans he⟩

end Loop

end TinyIoT
