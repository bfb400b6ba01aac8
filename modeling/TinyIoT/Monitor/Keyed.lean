/-
Identifiers along a run: where no event gives one out twice, every time series and every subscription
has its own, and the lists of the monitor have an entry only for what there is.
-/
import TinyIoT.Monitor.Series

namespace TinyIoT

namespace Watch

variable {strtod : Strtod} {s s' : Watch} {a b : List (Nat × Tracked)} {ts : Nat} {t t' : Tracked}

theorem subs_split (h : s.series = a ++ (ts, t) :: b) :
    s.subs = a.flatMap (fun e => e.2.children) ++ (t.children ++ b.flatMap fun e => e.2.children) := by
  unfold subs
  rw [h]
  simp

theorem subs_sublist (h : s.series = a ++ (ts, t) :: b) (h' : s'.series = a ++ (ts, t') :: b)
    (hc : t'.children.Sublist t.children) : s'.subs.Sublist s.subs := by
  rw [subs_split h, subs_split h']
  exact (List.Sublist.refl _).append (hc.append (List.Sublist.refl _))

theorem names_eq (h : s.series = a ++ (ts, t) :: b) (h' : s'.series = a ++ (ts, t') :: b)
    (hri : t'.obj.str .ri = t.obj.str .ri) : s'.names = s.names := by
  unfold names
  rw [h, h']
  simp [List.filterMap_append, List.filterMap_cons, hri]

/-- The series of a time series with what `Assoc.get` finds replaced. -/
theorem split_series (h : Assoc.get s.series ts = some t) :
    ∃ a b, s.series = a ++ (ts, t) :: b ∧ (∀ t', Assoc.set s.series ts t' = a ++ (ts, t') :: b) ∧
      Assoc.del s.series ts = a ++ b :=
  Assoc.split_of_get h

theorem Keyed.get_of_mem (hs : s.Keyed) {e : Nat × Tracked} (he : e ∈ s.series) : Assoc.get s.series e.1 = some e.2 :=
  Assoc.get_of_mem hs.series he

theorem Keyed.eq_of_addr (hs : s.Keyed) {e e' : Nat × Tracked} (he : e ∈ s.series) (he' : e' ∈ s.series)
    (h : e.1 = e'.1) : e = e' :=
  List.inj_on_of_nodup_map hs.series he he' h

/-- A change of one time series that keeps its identifier and lets children go. -/
theorem Keyed.replace (hs : s.Keyed) (h : s.series = a ++ (ts, t) :: b) (h' : s'.series = a ++ (ts, t') :: b)
    (hri : t'.obj.str .ri = t.obj.str .ri) (hc : t'.children.Sublist t.children) (hb : s'.born = s.born)
    (hw : Unique s'.mon.windows ∧ ∀ k ∈ s'.mon.windows.map Prod.fst, k ∈ s'.keys)
    (ht : Unique s'.mon.totals ∧ ∀ e ∈ s'.mon.totals, 0 ≤ e.2) : s'.Keyed := by
  have hsub := subs_sublist h h' hc
  have hkeys : s'.keys.Sublist s.keys := hsub.filterMap _
  refine ⟨?_, ?_, ?_, hs.ids.sublist (hsub.map _), fun k hk => hs.short k (hkeys.subset hk), hs.keys.sublist hkeys, ?_, hw, ht⟩
  · have := hs.series
    rw [h] at this
    rw [h']
    simpa using this
  · intro e he
    rw [h'] at he
    rcases List.mem_append.mp he with he | he
    · exact hs.named e (by rw [h]; exact List.mem_append_left _ he)
    · rcases List.mem_cons.mp he with rfl | he
      · rw [hri]
        exact hs.named (ts, t) (by rw [h]; simp)
      · exact hs.named e (by rw [h]; exact List.mem_append_right _ (List.mem_cons_of_mem _ he))
  · rw [names_eq h h' hri]
    exact hs.names
  · intro x hx
    rw [hb]
    exact hs.born x (hsub.subset hx)

/-- A running total that is put back stays one of a kind and is not negative. -/
theorem Keyed.putTotal (hs : s.Keyed) {r : CStr} (hr : r.length ≤ 255) {v : Int} (hv : 0 ≤ v) :
    Unique (putEntry s.mon.totals r v) ∧ ∀ e ∈ putEntry s.mon.totals r v, 0 ≤ e.2 := by
  refine ⟨hs.totals.1.putEntry hr v, fun e he => ?_⟩
  unfold putEntry at he
  split at he
  · rcases Assoc.mem_set he with he | rfl
    · exact hs.totals.2 e he
    · exact hv
  · rcases List.mem_cons.mp he with rfl | he
    · exact hv
    · exact hs.totals.2 e he

theorem Keyed.total_nonneg (hs : s.Keyed) (r : CStr) : 0 ≤ s.mon.total r := by
  unfold Monitor.total
  cases h : Assoc.get s.mon.totals r with
  | none => exact Int.le_refl 0
  | some v => exact hs.totals.2 (r, v) (Assoc.mem_of_get h)

theorem Keyed.forgetTotal {m : Monitor} (h : Unique m.totals ∧ ∀ e ∈ m.totals, 0 ≤ e.2) (ri : Option CStr) :
    (Unique (m.tsForgetMissingTotal ri).totals ∧ ∀ e ∈ (m.tsForgetMissingTotal ri).totals, 0 ≤ e.2) ∧
      (m.tsForgetMissingTotal ri).windows = m.windows := by
  cases ri with
  | none => exact ⟨h, rfl⟩
  | some r => exact ⟨⟨h.1.del r, fun e he => h.2 e (Assoc.mem_of_mem_del he)⟩, rfl⟩

/-- What a call of `notify_missing_data` for the time series leaves in the lists. -/
theorem Keyed.notify (hs : s.Keyed) (strtod : Strtod) (h : s.series = a ++ (ts, t) :: b) (obj : Obj) (hobj : obj.str .ri = t.obj.str .ri)
    (clock : Nat → Int) :
    (Unique (notifyMissingData strtod s.mon obj t.children 1 clock).1.windows ∧
        ∀ k ∈ (notifyMissingData strtod s.mon obj t.children 1 clock).1.windows.map Prod.fst, k ∈ s.keys) ∧
      Unique (notifyMissingData strtod s.mon obj t.children 1 clock).1.totals ∧
        ∀ e ∈ (notifyMissingData strtod s.mon obj t.children 1 clock).1.totals, 0 ≤ e.2 := by
  obtain ⟨r, hr, hlen⟩ := hs.named (ts, t) (by rw [h]; simp)
  unfold notifyMissingData
  split
  · exact ⟨hs.windows, hs.totals⟩
  · have hsub : ∀ k ∈ t.children.filterMap subKey, k ∈ s.keys := by
      intro k hk
      unfold Watch.keys
      rw [subs_split h, List.filterMap_append, List.filterMap_append]
      exact List.mem_append_right _ (List.mem_append_left _ hk)
    have hadd : s.mon.tsAddMissingTotal (obj.str .ri) (newCount 1) =
        ({ s.mon with totals := putEntry s.mon.totals r (s.mon.total r + 1) }, s.mon.total r + 1) := by
      rw [hobj, hr]
      rfl
    simp only [hadd]
    have hshort : ∀ k ∈ t.children.filterMap subKey, k.length ≤ 255 := fun k hk => hs.short k (hsub k hk)
    have hu : Unique ({ s.mon with totals := putEntry s.mon.totals r (s.mon.total r + 1) } : Monitor).windows :=
      hs.windows.1
    refine ⟨⟨(visitChildren_entries hshort hu).1, fun k hk => ?_⟩, ?_⟩
    · rcases (visitChildren_entries hshort hu).2 k hk with hk | hk
      · exact hs.windows.2 k hk
      · exact hsub k hk
    · rw [visitChildren_totals]
      have := hs.total_nonneg r
      exact hs.putTotal hlen (by omega)

theorem Keyed.detect (hs : s.Keyed) (h : Assoc.get s.series ts = some t) (time : CStr) (clock : Nat → Int) :
    (s.detect strtod ts t time clock).Keyed := by
  obtain ⟨a, b, h, hset, _⟩ := split_series h
  have hri := str_ri_recordMissing t.obj time
  obtain ⟨hw, ht⟩ := hs.notify strtod h (recordMissing t.obj time) hri clock
  have hk : (s.detect strtod ts t time clock).keys = s.keys := by
    unfold Watch.keys
    rw [subs_split h, subs_split (hset _)]
  refine hs.replace h (hset _) hri (List.Sublist.refl _) rfl ⟨hw.1, ?_⟩ ht
  rw [hk]
  exact hw.2

/-- An identifier that is short and not in use. -/
theorem short_unused {k : CStr} {l : List CStr} (h : (decide (k.length ≤ 255) && l.all fun q => decide (q ≠ k)) = true) :
    k.length ≤ 255 ∧ k ∉ l := by
  obtain ⟨h₁, h₂⟩ := Bool.and_eq_true_iff.mp h
  exact ⟨of_decide_eq_true h₁, fun hm => of_decide_eq_true (List.all_eq_true.mp h₂ k hm) rfl⟩

theorem Keyed.createTs (hs : s.Keyed) {obj : Obj} (hp : s.proper (.createTs ts obj) = true)
    (h : s.step strtod (.createTs ts obj) = some s') : s'.Keyed := by
  simp only [step] at h
  split at h
  · cases h
  · rename_i hn
    cases h
    obtain ⟨r, hr, hp⟩ := (Option.any_eq_true _ _).mp hp
    obtain ⟨hlen, hr'⟩ := short_unused hp
    refine ⟨?_, ?_, ?_, hs.ids, hs.short, hs.keys, hs.born, hs.windows, hs.totals⟩
    · exact List.nodup_cons.mpr ⟨Assoc.get_eq_none_iff.mp (Assoc.has_eq_false.mp (by simpa using hn)), hs.series⟩
    · intro e he
      rcases List.mem_cons.mp he with rfl | he
      · exact ⟨r, hr, hlen⟩
      · exact hs.named e he
    · have hcons : ∀ held, Watch.names { s with series := (ts, ⟨obj, [], held⟩) :: s.series } = r :: s.names := by
        intro held
        simp [Watch.names, hr]
      rw [hcons]
      exact List.nodup_cons.mpr ⟨hr', hs.names⟩

theorem Keyed.updateTs (hs : s.Keyed) {body : Obj} {now : CStr} {kept : Json → List Json}
    (hp : s.proper (.updateTs ts body now kept) = true) (h : s.step strtod (.updateTs ts body now kept) = some s') :
    s'.Keyed := by
  simp only [step, Option.bind_eq_bind, Option.bind_eq_some_iff] at h
  obtain ⟨t, ht, h⟩ := h
  split at h
  · cases h; exact hs
  · rename_i obj hu
    cases h
    obtain ⟨a, b, hser, hset, _⟩ := split_series ht
    have hri : obj.str .ri = t.obj.str .ri := (updatedTs_ok hu).1 (Assoc.has_eq_false.mp (by simpa [proper] using hp))
    have hk : ∀ m held, (Watch.mk m (Assoc.set s.series ts ⟨obj, t.children, held⟩) s.serial s.born s.now s.sent).keys =
        s.keys := by
      intro m held
      unfold Watch.keys
      rw [subs_split hser, subs_split (hset _)]
    have hm : (Unique (if body.has .mdd then s.mon.tsForgetMissingTotal (t.obj.str .ri) else s.mon).totals ∧
        ∀ e ∈ (if body.has .mdd then s.mon.tsForgetMissingTotal (t.obj.str .ri) else s.mon).totals, 0 ≤ e.2) ∧
        (if body.has .mdd then s.mon.tsForgetMissingTotal (t.obj.str .ri) else s.mon).windows = s.mon.windows := by
      split
      · exact Keyed.forgetTotal hs.totals _
      · exact ⟨hs.totals, rfl⟩
    refine hs.replace hser (hset _) hri (List.Sublist.refl _) rfl ?_ hm.1
    rw [hk]
    dsimp only
    rw [hm.2]
    exact hs.windows

theorem mem_subs (h : s.series = a ++ (ts, t) :: b) {x : RTNode} :
    x ∈ s.subs ↔ x ∈ t.children ∨ ∃ e ∈ a ++ b, x ∈ e.2.children := by
  rw [subs_split h]
  simp only [List.mem_append, List.mem_flatMap]
  constructor
  · rintro (⟨e, he, hx⟩ | hx | ⟨e, he, hx⟩)
    · exact .inr ⟨e, .inl he, hx⟩
    · exact .inl hx
    · exact .inr ⟨e, .inr he, hx⟩
  · rintro (hx | ⟨e, he | he, hx⟩)
    · exact .inr (.inl hx)
    · exact .inl ⟨e, he, hx⟩
    · exact .inr (.inr ⟨e, he, hx⟩)

theorem Keyed.deleteTs (hs : s.Keyed) (h : s.step strtod (.deleteTs ts) = some s') : s'.Keyed := by
  simp only [step, Option.bind_eq_bind, Option.bind_eq_some_iff] at h
  obtain ⟨t, ht, h⟩ := h
  cases h
  obtain ⟨a, b, hser, _, hdel⟩ := split_series ht
  have hsub : (a ++ b).Sublist s.series := by
    rw [hser]
    exact (List.Sublist.refl a).append (List.sublist_cons_self _ _)
  rw [hdel]
  have hsubs : ((a ++ b).flatMap fun e => e.2.children).Sublist s.subs := by
    rw [subs_split hser, List.flatMap_append]
    exact (List.Sublist.refl _).append (List.sublist_append_right _ _)
  obtain ⟨h₁, h₂, h₃, _⟩ := foldl_forgetChild t.obj t.children hs.windows.1
  obtain ⟨h₄, h₅⟩ := Keyed.forgetTotal (m := t.children.foldl (forgetChild t.obj) s.mon)
    (by rw [h₁]; exact hs.totals) (t.obj.str .ri)
  refine ⟨hs.series.sublist (hsub.map _), fun e he => hs.named e (hsub.subset he), hs.names.sublist (hsub.filterMap _),
    hs.ids.sublist (hsubs.map _), fun k hk => hs.short k ((hsubs.filterMap _).subset hk),
    hs.keys.sublist (hsubs.filterMap _), fun x hx => hs.born x (hsubs.subset hx), ?_, h₄⟩
  dsimp only
  rw [h₅]
  refine ⟨h₂, fun k hk => ?_⟩
  -- an entry that is left belongs to a child of another time series
  obtain ⟨hk₁, hk₂⟩ := h₃ k hk
  obtain ⟨x, hx, hxk⟩ := List.mem_filterMap.mp (hs.windows.2 k hk₁)
  rcases (mem_subs hser).mp hx with hx | ⟨e, he, hx⟩
  · exact absurd (List.mem_filterMap.mpr ⟨x, hx, hxk⟩) hk₂
  · exact List.mem_filterMap.mpr ⟨x, List.mem_flatMap.mpr ⟨e, he, hx⟩, hxk⟩

theorem Keyed.createChild (hs : s.Keyed) {x : RTNode} (hp : s.proper (.createChild ts x) = true)
    (h : s.step strtod (.createChild ts x) = some s') : s'.Keyed := by
  simp only [step, Option.bind_eq_bind, Option.bind_eq_some_iff] at h
  obtain ⟨t, ht, h⟩ := h
  split at h
  · rename_i hx
    cases h
    obtain ⟨a, b, hser, hset, _⟩ := split_series ht
    rw [hset]
    have hperm : ((a ++ (ts, { t with children := (insertChild x (Forest.ofList t.children)).roots }) :: b).flatMap
        fun e => e.2.children).Perm (x :: s.subs) := by
      rw [subs_split hser]
      simp only [List.flatMap_append, List.flatMap_cons]
      have hr := roots_insertChild x (Forest.ofList t.children)
      rw [Forest.roots_ofList] at hr
      refine ((hr.append_right _).append_left _).trans ?_
      exact List.perm_middle
    have hid : x.id ∉ s.subs.map RTNode.id := by
      intro hm
      obtain ⟨y, hy, hyx⟩ := List.mem_map.mp hm
      obtain ⟨n, hn⟩ := hs.born y hy
      have := Assoc.has_iff.mpr ⟨n, hyx ▸ hn⟩
      simp [hx.2] at this
    have hkeys : ((x :: s.subs).filterMap subKey).Nodup ∧ ∀ k ∈ (x :: s.subs).filterMap subKey, k.length ≤ 255 := by
      cases hk : subKey x with
      | none => rw [List.filterMap_cons_none hk]; exact ⟨hs.keys, hs.short⟩
      | some k =>
        simp only [proper, hk, Option.all_some] at hp
        have hp := short_unused hp
        rw [List.filterMap_cons_some hk]
        refine ⟨List.nodup_cons.mpr ⟨hp.2, hs.keys⟩, fun k' hk' => ?_⟩
        rcases List.mem_cons.mp hk' with rfl | hk'
        · exact hp.1
        · exact hs.short k' hk'
    have hkperm := hperm.filterMap subKey
    refine ⟨?_, ?_, ?_, ?_, fun k hk => hkeys.2 k (hkperm.subset hk), hkperm.nodup_iff.mpr hkeys.1, ?_, ?_, hs.totals⟩
    · have := hs.series
      rw [hser] at this
      simpa using this
    · intro e he
      have hn := hs.named
      rw [hser] at hn
      rcases List.mem_append.mp he with he | he
      · exact hn e (List.mem_append_left _ he)
      · rcases List.mem_cons.mp he with rfl | he
        · exact hn (ts, t) (by simp)
        · exact hn e (List.mem_append_right _ (List.mem_cons_of_mem _ he))
    · have := hs.names
      unfold Watch.names at this ⊢
      rw [hser] at this
      simpa [List.filterMap_append, List.filterMap_cons] using this
    · refine (hperm.map RTNode.id).nodup_iff.mpr ?_
      exact List.nodup_cons.mpr ⟨hid, hs.ids⟩
    · intro y hy
      rcases List.mem_cons.mp (hperm.subset hy) with rfl | hy
      · exact ⟨s.serial, by simp⟩
      · obtain ⟨n, hn⟩ := hs.born y hy
        have hne : x.id ≠ y.id := fun he => hid (he ▸ List.mem_map_of_mem hy)
        exact ⟨n, by simpa [hne] using hn⟩
    · refine ⟨hs.windows.1, fun k hk => hkperm.symm.subset ?_⟩
      obtain ⟨y, hy, hyk⟩ := List.mem_filterMap.mp (hs.windows.2 k hk)
      exact List.mem_filterMap.mpr ⟨y, List.mem_cons_of_mem x hy, hyk⟩
  · cases h

theorem Keyed.deleteChild (hs : s.Keyed) {id : Nat} (h : s.step strtod (.deleteChild ts id) = some s') : s'.Keyed := by
  simp only [step, Option.bind_eq_bind, Option.bind_eq_some_iff] at h
  obtain ⟨t, ht, x, hx, h⟩ := h
  cases h
  obtain ⟨a, b, hser, hset, _⟩ := split_series ht
  have hxm : x ∈ t.children := List.mem_of_find?_eq_some hx
  have hxid : x.id = id := by simpa [RTNode.hasId] using List.find?_some hx
  obtain ⟨h₁, h₂, h₃, _⟩ := foldl_forgetChild t.obj [x] hs.windows.1
  refine hs.replace hser (hset _) rfl List.filter_sublist rfl ⟨h₂, fun k hk => ?_⟩ ?_
  · obtain ⟨hk₁, hk₂⟩ := h₃ k hk
    obtain ⟨y, hy, hyk⟩ := List.mem_filterMap.mp (hs.windows.2 k hk₁)
    have hne : y.id ≠ id := by
      intro he
      have hyx : y = x := List.inj_on_of_nodup_map hs.ids hy ((mem_subs hser).mpr (.inl hxm)) (he.trans hxid.symm)
      exact hk₂ (List.mem_filterMap.mpr ⟨x, List.mem_singleton_self x, hyx ▸ hyk⟩)
    refine List.mem_filterMap.mpr ⟨y, (mem_subs (hset _)).mpr ?_, hyk⟩
    rcases (mem_subs hser).mp hy with hy | hy
    · exact .inl (List.mem_filter.mpr ⟨hy, by simpa using hne⟩)
    · exact .inr hy
  · dsimp only
    rw [show forgetChild t.obj s.mon x = [x].foldl (forgetChild t.obj) s.mon from rfl, h₁]
    exact hs.totals

/-- Proper events keep identifiers apart. -/
theorem Keyed.step (hs : s.Keyed) {a : WatchAct} (hp : s.proper a = true) (h : s.step strtod a = some s') : s'.Keyed := by
  cases a with
  | detect ts time clock =>
    simp only [Watch.step, Option.bind_eq_bind, Option.bind_eq_some_iff] at h
    obtain ⟨t, ht, h⟩ := h
    split at h
    · cases h; exact hs.detect ht time clock
    · cases h
  | createTs ts obj => exact hs.createTs hp h
  | updateTs ts body now kept => exact hs.updateTs hp h
  | deleteTs ts => exact hs.deleteTs h
  | createChild ts x => exact hs.createChild hp h
  | deleteChild ts id => exact hs.deleteChild h

end Watch

end TinyIoT
