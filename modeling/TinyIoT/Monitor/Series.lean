/-
The time series of a CSE with their subscriptions, as far as missing data points are concerned, and
everything that happens to them: a point is detected, a subscription or an instance comes or goes, a
time series is created, updated or deleted. Each detection has a serial number, and every entry of
`mdlt` is kept together with the detection it was recorded by, so that the points a notification carries
can be told apart even when their times are equal.
-/
import TinyIoT.Monitor.Window
import TinyIoT.Resource.Built
import TinyIoT.TimeSeries.Changes
import TinyIoT.Lib.Reach

namespace TinyIoT

/-- A detection: its number, the time recorded, and what each subscription read from the clock when it was
visited. -/
structure Point where
  serial : Nat
  time : CStr
  clock : Nat → Int

/-- An entry of `mdlt` that no detection made. -/
def Point.none : Point := ⟨0, [], fun _ => 0⟩

/-- A time series with its children; `held` has the detection of each entry of `mdlt`. -/
structure Tracked where
  obj : Obj
  children : List RTNode
  held : List Point

/-- A notification of `notify_missing_data`: to whom, and the detections of the entries it carries. -/
structure Sent where
  sub : RTNode
  points : List Point

structure Watch where
  mon : Monitor
  /-- The time series, by the address of their node. -/
  series : List (Nat × Tracked)
  /-- The number of detections so far. -/
  serial : Nat
  /-- The number of detections there had been when a child was created. -/
  born : List (Nat × Nat)
  /-- The last reading of the clock. -/
  now : Int
  sent : List Sent

/-- What can happen. -/
inductive WatchAct where
  | detect (ts : Nat) (time : CStr) (clock : Nat → Int)
  | createTs (ts : Nat) (obj : Obj)
  | updateTs (ts : Nat) (body : Obj) (now : CStr) (kept : Json → List Json)
  | deleteTs (ts : Nat)
  | createChild (ts : Nat) (x : RTNode)
  | deleteChild (ts : Nat) (id : Nat)

/-! ## What happens to the object of a time series -/

/-- The test of `traverse_and_check_ts_missing`; `create_tsi` asks for a true `mdd`. -/
def mddWatched (ts : Obj) : Bool :=
  match ts.get .mdd with
  | some (.bool b) => b
  | some (.num v) => (Json.num v).valueint ≠ 0
  | _ => false

/-- The object `update_ts` leaves, before the limits are applied. -/
def updatedTs (now : CStr) (kept : Json → List Json) (target pc : Obj) : Except Resp Obj :=
  if [Attr.mdc, .mdlt, .cni, .cbs].any fun k => pc.has k then
    .error (handleError .badRequest "Cannot manually update read-only attributes")
  else do
    checkTsCnf pc
    checkMddUpdate target pc
    let body ← updatePeriod target pc
    let obj := if (body.get .mdd).any mddOn then restartDetection now target else target
    return obj.updateResource (processAnncAtUpdate kept obj body).1

/-- `update_ts` on the server settles with this object. -/
theorem updateTs_eq_settleTs {env : Env} {kept : Json → List Json} {req : Req} {s : Server} {target : RTNode} {ts : Obj}
    {ri : CStr} (hri : target.ri = some ri) (h : updatedTs env.now kept target.obj req.pc = .ok ts) :
    ∃ db, s.updateTs env kept req target = Server.settleTs { s with db := db } target ri ts := by
  unfold updatedTs at h
  split at h
  · cases h
  · rename_i hro
    unfold Server.updateTs
    rw [if_neg hro]
    simp only [bind, Except.bind] at h ⊢
    cases hc : checkTsCnf req.pc with
    | error e => rw [hc] at h; cases h
    | ok _ =>
      cases hm : checkMddUpdate target.obj req.pc with
      | error e => rw [hc, hm] at h; cases h
      | ok _ =>
        cases hp : updatePeriod target.obj req.pc with
        | error e => rw [hc, hm, hp] at h; cases h
        | ok body =>
          simp only [hc, hm, hp, hri] at h ⊢
          cases h
          exact ⟨_, rfl⟩

/-- The newest entries of a list, as many as `mdn` allows. -/
def trimTo {α : Type} (ts : Obj) (l : List α) : List α :=
  if 0 < (ts.num .mdn).getD 0 then l.drop (l.length - ((ts.num .mdn).getD 0).toNat) else l

theorem forall₂_trimTo {α β : Type} {R : α → β → Prop} (ts : Obj) {l : List α} {l' : List β} (h : List.Forall₂ R l l') :
    List.Forall₂ R (trimTo ts l) (trimTo ts l') := by
  unfold trimTo
  split
  · rw [h.length_eq]
    exact List.forall₂_drop _ h
  · exact h

theorem mem_trimTo {α : Type} {ts : Obj} {l : List α} {q : α} (h : q ∈ trimTo ts l) : q ∈ l := by
  unfold trimTo at h
  split at h
  · exact List.mem_of_mem_drop h
  · exact h

theorem trimTo_suffix {α : Type} (ts : Obj) (l : List α) : trimTo ts l <:+ l := by
  unfold trimTo
  split
  · exact List.drop_suffix _ l
  · exact List.suffix_refl l

theorem mdltOf_congr {o o' : Obj} (h : o.get .mdlt = o'.get .mdlt) : mdltOf o = mdltOf o' := by
  unfold mdltOf
  rw [h]

theorem get_setOrAdd_self (o : Obj) (k : Attr) (v : Json) :
    (if o.has k then o.set k v else o.add k v).get k = some v := by
  by_cases h : o.has k = true
  · obtain ⟨w, hw⟩ := Assoc.has_iff.mp h
    rw [if_pos h]
    exact Assoc.get_set_self hw
  · have hn : Assoc.get o k = none := Assoc.has_eq_false.mp (by simpa using h)
    rw [if_neg h]
    simp [hn]

theorem get_setOrAdd_of_ne {o : Obj} {k k' : Attr} {v : Json} (h : k' ≠ k) :
    (if o.has k' then o.set k' v else o.add k' v).get k = o.get k := by
  split
  · exact Assoc.get_set_ne h
  · exact Assoc.get_add_ne h

theorem mdltOf_recordMissing (ts : Obj) (time : CStr) :
    mdltOf (recordMissing ts time) = trimTo ts (mdltOf ts ++ [.str time]) := by
  unfold recordMissing
  rw [mdltOf_congr (get_setOrAdd_of_ne (by decide))]
  unfold mdltOf
  rw [get_setOrAdd_self]
  rfl

theorem get_recordMissing_of_ne {ts : Obj} {time : CStr} {k : Attr} (h₁ : k ≠ .mdlt) (h₂ : k ≠ .mdc) :
    (recordMissing ts time).get k = ts.get k := by
  unfold recordMissing
  rw [get_setOrAdd_of_ne (Ne.symm h₂), get_setOrAdd_of_ne (Ne.symm h₁)]

theorem str_ri_recordMissing (ts : Obj) (time : CStr) : (recordMissing ts time).str .ri = ts.str .ri :=
  Obj.str_congr (get_recordMissing_of_ne (by decide) (by decide))

/-- The steps of an update that is accepted. -/
theorem updatedTs_steps {now : CStr} {kept : Json → List Json} {target pc ts : Obj} (h : updatedTs now kept target pc = .ok ts) :
    pc.get .mdc = none ∧ pc.get .mdlt = none ∧ checkMddUpdate target pc = .ok () ∧
      ∃ body o : Obj, updatePeriod target pc = .ok body ∧
        o = (if (pc.get .mdd).any mddOn then restartDetection now target else target) ∧
        ts = o.updateResource (processAnncAtUpdate kept o body).1 := by
  unfold updatedTs at h
  split at h
  · cases h
  · rename_i hro
    simp only [List.any_cons, List.any_nil, Bool.or_false, Bool.or_eq_true, not_or, Bool.not_eq_true] at hro
    refine ⟨Assoc.has_eq_false.mp hro.1, Assoc.has_eq_false.mp hro.2.1, ?_⟩
    simp only [bind, Except.bind] at h
    cases hc : checkTsCnf pc with
    | error e => rw [hc] at h; cases h
    | ok _ =>
      cases hm : checkMddUpdate target pc with
      | error e => rw [hc, hm] at h; cases h
      | ok _ =>
        cases hp : updatePeriod target pc with
        | error e => rw [hc, hm, hp] at h; cases h
        | ok body =>
          simp only [hc, hm, hp] at h
          cases h
          have hmdd : body.get .mdd = pc.get .mdd := (touches_updatePeriod hp).get (by decide)
          exact ⟨rfl, body, _, rfl, by rw [hmdd], rfl⟩

/-- What an update that is accepted does: the checks have passed, and the members of the body are applied
to the object, with the detection restarted where the body switches it on. -/
theorem updatedTs_cases {now : CStr} {kept : Json → List Json} {target pc ts : Obj} (h : updatedTs now kept target pc = .ok ts) :
    pc.get .mdc = none ∧ pc.get .mdlt = none ∧ checkMddUpdate target pc = .ok () ∧
      ∃ body : Obj, (∀ k ∉ [Attr.pei, .peid, .at], body.get k = pc.get k) ∧
        (∀ e ∈ body, e ∈ pc ∨ e.1 ∈ [Attr.pei, .peid, .at]) ∧
        ts = (if (pc.get .mdd).any mddOn then restartDetection now target else target).updateResource body := by
  obtain ⟨hmdc, hmdlt, hcheck, body, o, hp, ho, rfl⟩ := updatedTs_steps h
  obtain ⟨hb, hmem⟩ := updatePeriod_ok hp
  refine ⟨hmdc, hmdlt, hcheck, _, fun k hk => ?_, fun e he => ?_, by rw [ho]⟩
  · simp only [List.mem_cons, List.not_mem_nil, or_false, not_or] at hk
    rw [get_processAnncAtUpdate hk.2.2]
    exact hb k (by simp [hk])
  · rcases mem_processAnncAtUpdate he with he | he
    · rcases hmem e he with he | he | he
      · exact .inl he
      · simp [he]
      · simp [he]
    · simp [he]

/-- An update without `ri` keeps the identifier, and the list of missing points unless it switches the
detection on. -/
theorem updatedTs_ok {now : CStr} {kept : Json → List Json} {target pc ts : Obj} (h : updatedTs now kept target pc = .ok ts) :
    (pc.get .ri = none → ts.str .ri = target.str .ri) ∧
      ((pc.get .mdd).any mddOn = false → mdltOf ts = mdltOf target) := by
  obtain ⟨-, hmdlt, -, body, hb, -, rfl⟩ := updatedTs_cases h
  constructor
  · intro hri
    refine Obj.str_congr ?_
    rw [Obj.get_updateResource_of_not_has ((hb .ri (by decide)).trans hri)]
    split
    · exact get_restartDetection (by decide)
    · rfl
  · intro hoff
    refine mdltOf_congr ?_
    rw [Obj.get_updateResource_of_not_has ((hb .mdlt (by decide)).trans hmdlt), hoff]
    rfl

/-! ## Steps -/

/-- What `delete_process` does to the lists for one child of a time series. -/
def forgetChild (ts : Obj) (m : Monitor) (x : RTNode) : Monitor :=
  if x.ty = .sub then (tsMdFlushSub m ts x).1 else m

namespace Watch

variable (strtod : Strtod)

/-- The detections of the entries of `mdlt` after a new one. -/
def newHeld (s : Watch) (t : Tracked) (time : CStr) (clock : Nat → Int) : List Point :=
  trimTo t.obj (t.held ++ [⟨s.serial + 1, time, clock⟩])

/-- The notifications of a detection. -/
def newSent (s : Watch) (t : Tracked) (time : CStr) (clock : Nat → Int) : List Sent :=
  (notifyMissingData strtod s.mon (recordMissing t.obj time) t.children 1 clock).2.filterMap fun m =>
    (t.children.find? (RTNode.hasId m.sub)).map fun sub => ⟨sub, ((s.newHeld t time clock).drop m.start).take m.len⟩

/-- A point is recorded and the subscriptions hear of it. -/
def detect (s : Watch) (ts : Nat) (t : Tracked) (time : CStr) (clock : Nat → Int) : Watch :=
  ⟨(notifyMissingData strtod s.mon (recordMissing t.obj time) t.children 1 clock).1,
    Assoc.set s.series ts ⟨recordMissing t.obj time, t.children, s.newHeld t time clock⟩, s.serial + 1, s.born,
    t.children.foldl (fun n x => max n (clock x.id)) s.now, s.sent ++ s.newSent strtod t time clock⟩

/-- One event; `none` when it cannot happen. -/
def step (s : Watch) : WatchAct → Option Watch
  | .detect ts time clock => do
    let t ← Assoc.get s.series ts
    if mddWatched t.obj then return s.detect strtod ts t time clock else none
  | .createTs ts obj =>
    if Assoc.has s.series ts then none
    else some { s with series := (ts, ⟨obj, [], (mdltOf obj).map fun _ => .none⟩) :: s.series }
  | .updateTs ts body now kept => do
    let t ← Assoc.get s.series ts
    match updatedTs now kept t.obj body with
    | .error _ => return s
    | .ok obj =>
      let held := if (body.get .mdd).any mddOn then (mdltOf obj).map fun _ => Point.none else t.held
      return { s with
        mon := if body.has .mdd then s.mon.tsForgetMissingTotal (t.obj.str .ri) else s.mon
        series := Assoc.set s.series ts ⟨obj, t.children, held⟩ }
  | .deleteTs ts => do
    let t ← Assoc.get s.series ts
    return { s with
      mon := (t.children.foldl (forgetChild t.obj) s.mon).tsForgetMissingTotal (t.obj.str .ri)
      series := Assoc.del s.series ts }
  | .createChild ts x => do
    let t ← Assoc.get s.series ts
    if x.ty ∈ [ResourceType.sub, .tsi] ∧ Assoc.has s.born x.id = false then
      return { s with
        series := Assoc.set s.series ts { t with children := (insertChild x (Forest.ofList t.children)).roots }
        born := (x.id, s.serial) :: s.born }
    else none
  | .deleteChild ts id => do
    let t ← Assoc.get s.series ts
    let x ← t.children.find? (RTNode.hasId id)
    return { s with
      mon := forgetChild t.obj s.mon x
      series := Assoc.set s.series ts { t with children := t.children.filter fun y => y.id ≠ id } }

end Watch

/-! ## The lists of the monitor -/

/-- No key occurs twice in a list of entries. -/
def Unique {β : Type} (m : List (CStr × β)) : Prop := (m.map Prod.fst).Nodup

theorem Unique.putEntry {β : Type} {m : List (CStr × β)} (h : Unique m) {ri : CStr} (hlen : ri.length ≤ 255) (v : β) :
    Unique (putEntry m ri v) := by
  unfold Unique TinyIoT.putEntry
  split
  · rw [Assoc.keys_set]
    exact h
  · rename_i hn
    have hn : Assoc.get m ri = none := Assoc.has_eq_false.mp (by simpa using hn)
    rw [entryRi_eq hlen]
    exact List.nodup_cons.mpr ⟨Assoc.get_eq_none_iff.mp hn, h⟩

theorem Unique.del {β : Type} {m : List (CStr × β)} (h : Unique m) (ri : CStr) : Unique (Assoc.del m ri) :=
  h.sublist ((Assoc.del_sublist m ri).map _)

theorem mem_keys_putEntry {β : Type} {m : List (CStr × β)} {ri k : CStr} {v : β} (hlen : ri.length ≤ 255)
    (h : k ∈ (putEntry m ri v).map Prod.fst) : k ∈ m.map Prod.fst ∨ k = ri := by
  unfold putEntry at h
  split at h
  · rw [Assoc.keys_set] at h
    exact .inl h
  · rw [entryRi_eq hlen] at h
    exact (List.mem_cons.mp h).symm

section Entries

variable {strtod : Strtod} {ts : Obj} {total new : Int} {clock : Nat → Int}

/-- The entries a call leaves: those there were, and those of the subscriptions visited. -/
theorem visitChildren_entries {m : Monitor} {l : List RTNode} (hlen : ∀ k ∈ l.filterMap subKey, k.length ≤ 255)
    (hu : Unique m.windows) :
    Unique (visitChildren strtod ts total new clock m l).1.windows ∧
      ∀ k ∈ (visitChildren strtod ts total new clock m l).1.windows.map Prod.fst,
        k ∈ m.windows.map Prod.fst ∨ k ∈ l.filterMap subKey := by
  induction l generalizing m with
  | nil => exact ⟨hu, fun k hk => .inl hk⟩
  | cons c l ih =>
    have hl : ∀ k ∈ l.filterMap subKey, k ∈ (c :: l).filterMap subKey := by
      intro k hk
      obtain ⟨x, hx, hxk⟩ := List.mem_filterMap.mp hk
      exact List.mem_filterMap.mpr ⟨x, List.mem_cons_of_mem c hx, hxk⟩
    have hv : Unique (visitChild strtod ts total new (clock c.id) m c).mon.windows ∧
        ∀ k ∈ (visitChild strtod ts total new (clock c.id) m c).mon.windows.map Prod.fst,
          k ∈ m.windows.map Prod.fst ∨ k ∈ (c :: l).filterMap subKey := by
      cases hw : mdWanted strtod c with
      | none => rw [visitChild_skip (.inl hw)]; exact ⟨hu, fun k hk => .inl hk⟩
      | some w =>
        cases hri : c.ri with
        | none => rw [visitChild_skip (.inr hri)]; exact ⟨hu, fun k hk => .inl hk⟩
        | some r =>
          have hr : r ∈ (c :: l).filterMap subKey :=
            List.mem_filterMap.mpr ⟨c, List.mem_cons_self, (subKey_of_wanted hw).trans hri⟩
          have hput : ∀ w : Window, Unique (putEntry m.windows r w) ∧
              ∀ k ∈ (putEntry m.windows r w).map Prod.fst, k ∈ m.windows.map Prod.fst ∨ k ∈ (c :: l).filterMap subKey :=
            fun w => ⟨hu.putEntry (hlen r hr) w, fun k hk => (mem_keys_putEntry (hlen r hr) hk).imp_right fun he => by rw [he]; exact hr⟩
          rw [visitChild_take hw hri]
          split
          · exact hput _
          · exact hput _
    obtain ⟨h₁, h₂⟩ := ih (m := (visitChild strtod ts total new (clock c.id) m c).mon) (fun k hk => hlen k (hl k hk)) hv.1
    refine ⟨h₁, fun k hk => ?_⟩
    rcases h₂ k hk with hk | hk
    · exact hv.2 k hk
    · exact .inr (hl k hk)

end Entries

theorem forgetChild_eq (ts : Obj) (m : Monitor) (x : RTNode) :
    forgetChild ts m x = ((subKey x).map m.mdForget).getD m := by
  unfold forgetChild subKey
  split
  · unfold tsMdFlushSub
    cases x.ri with
    | none => rfl
    | some r => rfl
  · rfl

/-- Forgetting the children takes out their entries and leaves everything else. -/
theorem foldl_forgetChild (ts : Obj) {m : Monitor} (l : List RTNode) (hu : Unique m.windows) :
    (l.foldl (forgetChild ts) m).totals = m.totals ∧ Unique (l.foldl (forgetChild ts) m).windows ∧
      (∀ k ∈ (l.foldl (forgetChild ts) m).windows.map Prod.fst, k ∈ m.windows.map Prod.fst ∧ k ∉ l.filterMap subKey) ∧
      ∀ k, k ∉ l.filterMap subKey → (l.foldl (forgetChild ts) m).window k = m.window k := by
  induction l generalizing m with
  | nil => exact ⟨rfl, hu, fun k hk => ⟨hk, by simp⟩, fun k _ => rfl⟩
  | cons x l ih =>
    rw [List.foldl_cons, forgetChild_eq]
    cases hk : subKey x with
    | none =>
      rw [List.filterMap_cons_none hk]
      exact ih hu
    | some r =>
      rw [List.filterMap_cons_some hk]
      obtain ⟨h₁, h₂, h₃, h₄⟩ := ih (m := m.mdForget r) (hu.del r)
      refine ⟨h₁, h₂, fun k hk' => ?_, fun k hk' => ?_⟩
      · obtain ⟨h₅, h₆⟩ := h₃ k hk'
        have hne : k ≠ r := by
          rintro rfl
          exact Assoc.not_mem_keys_del hu k h₅
        exact ⟨((Assoc.del_sublist m.windows r).map _).subset h₅, by simp [hne, h₆]⟩
      · simp only [List.mem_cons, not_or] at hk'
        refine (h₄ k hk'.2).trans ?_
        unfold Monitor.window Monitor.mdForget
        rw [Assoc.get_del_ne (Ne.symm hk'.1)]

/-! ## Identifiers -/

namespace Watch

/-- The children of all time series. -/
def subs (s : Watch) : List RTNode := s.series.flatMap fun e => e.2.children

/-- The keys of all subscriptions. -/
def keys (s : Watch) : List CStr := s.subs.filterMap subKey

/-- The identifiers of all time series. -/
def names (s : Watch) : List CStr := s.series.filterMap fun e => e.2.obj.str .ri

/-- An event that gives out no identifier a second time, or one too long for an entry. The server makes
identifiers so, but takes one from the body of a request where there is one. -/
def proper (s : Watch) : WatchAct → Bool
  | .createTs _ obj => (obj.str .ri).any fun r => r.length ≤ 255 && s.names.all fun q => q ≠ r
  | .updateTs _ body _ _ => !body.has .ri
  | .createChild _ x => (subKey x).all fun k => k.length ≤ 255 && s.keys.all fun q => q ≠ k
  | _ => true

/-- Everything has an identifier of its own, and the lists have entries for what there is. -/
structure Keyed (s : Watch) : Prop where
  series : (s.series.map Prod.fst).Nodup
  named : ∀ e ∈ s.series, ∃ r, e.2.obj.str .ri = some r ∧ r.length ≤ 255
  names : s.names.Nodup
  ids : (s.subs.map RTNode.id).Nodup
  short : ∀ k ∈ s.keys, k.length ≤ 255
  keys : s.keys.Nodup
  born : ∀ x ∈ s.subs, ∃ b, Assoc.get s.born x.id = some b
  windows : Unique s.mon.windows ∧ ∀ k ∈ s.mon.windows.map Prod.fst, k ∈ s.keys
  totals : Unique s.mon.totals ∧ ∀ e ∈ s.mon.totals, 0 ≤ e.2

end Watch

end TinyIoT
