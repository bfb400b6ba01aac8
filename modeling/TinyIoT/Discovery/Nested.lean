/-
The nested response of a retrieve with child resources: `restruct_descendant_arr_to_hash` puts the records into a hash map
by `pi`, `attach_descendant_to_target` goes down from the target and moves the object of each record it finds below its
parent, and `attach_orphans_to_target` moves what is left below the target itself. Every object is placed once, and below
its parent wherever the way from the target to it is among the records.

A record whose object was moved is known by its `ri`. The members of an object are those with child resources; its own
attributes, and the custom attributes that are taken out of theirs, are left out, and so are the names of the types of
flexContainers: the member a child goes to is given by `key`, and by `orphanKey` below the target.
-/
import TinyIoT.Discovery.Retrieve
import TinyIoT.Resource.Sdt
import TinyIoT.Lib.Hanging

namespace TinyIoT

/-! ## The hash map -/

/-- `PIMap`: the entries of each bucket. -/
def PiMap := Nat → List (CStr × List Descendant)

/-- `hash_str`, in 32 bits. -/
def hashStr (s : CStr) : Nat := s.foldl (fun h c => h * 33 % 4294967296 ^^^ c.toNat % 256) 5381 % 1024

/-- The entry of a `pi` that is there gets the record ahead of its others. -/
def bucketPut (d : Descendant) : List (CStr × List Descendant) → Option (List (CStr × List Descendant))
  | [] => none
  | e :: es => if e.1 = d.pi then some ((e.1, d :: e.2) :: es) else (bucketPut d es).map (e :: ·)

namespace PiMap

/-- `pimap_put`. -/
def put (m : PiMap) (d : Descendant) : PiMap := fun b =>
  if b = hashStr d.pi then (bucketPut d (m b)).getD ((d.pi, [d]) :: m b) else m b

/-- `pimap_get`. -/
def get (m : PiMap) (ri : CStr) : List Descendant := (((m (hashStr ri)).find? fun e => e.1 = ri).map (·.2)).getD []

end PiMap

/-- `restruct_descendant_arr_to_hash`. -/
def restructDescendantArrToHash (l : List Descendant) : PiMap := l.foldl PiMap.put fun _ => []

theorem find?_bucketPut {d : Descendant} {es es' : List (CStr × List Descendant)} (h : bucketPut d es = some es')
    (ri : CStr) :
    ((es'.find? fun e => e.1 = ri).map (·.2)).getD [] =
      if d.pi = ri then d :: ((es.find? fun e => e.1 = ri).map (·.2)).getD [] else
        ((es.find? fun e => e.1 = ri).map (·.2)).getD [] := by
  induction es generalizing es' with
  | nil => cases h
  | cons e es ih =>
    rw [bucketPut] at h
    split at h
    · rename_i hpi
      cases h
      by_cases hri : d.pi = ri
      · rw [if_pos hri, List.find?_cons_of_pos (by simpa [hpi] using hri),
        List.find?_cons_of_pos (by simpa [hpi] using hri)]
        rfl
      · rw [if_neg hri, List.find?_cons_of_neg (by simpa [hpi] using hri),
        List.find?_cons_of_neg (by simpa [hpi] using hri)]
    · rename_i hpi
      obtain ⟨es'', hput, rfl⟩ := Option.map_eq_some_iff.mp h
      by_cases hri : e.1 = ri
      · have hne : d.pi ≠ ri := fun he => hpi (hri.trans he.symm)
        rw [if_neg hne, List.find?_cons_of_pos (by simpa using hri), List.find?_cons_of_pos (by simpa using hri)]
      · rw [List.find?_cons_of_neg (by simpa using hri), List.find?_cons_of_neg (by simpa using hri)]
        exact ih hput

theorem find?_of_bucketPut_none {d : Descendant} {es : List (CStr × List Descendant)} (h : bucketPut d es = none) :
    es.find? (fun e => e.1 = d.pi) = none := by
  induction es with
  | nil => rfl
  | cons e es ih =>
    rw [bucketPut] at h
    split at h
    · cases h
    · rename_i hpi
      rw [List.find?_cons_of_neg (by simpa using hpi)]
      exact ih (Option.map_eq_none_iff.mp h)

/-- A record is put ahead of the others with its `pi`, and changes nothing for another `pi`, in the same bucket or not. -/
theorem PiMap.get_put (m : PiMap) (d : Descendant) (ri : CStr) :
    (m.put d).get ri = if d.pi = ri then d :: m.get ri else m.get ri := by
  unfold PiMap.get PiMap.put
  by_cases hb : hashStr ri = hashStr d.pi
  · rw [if_pos hb]
    cases hput : bucketPut d (m (hashStr ri)) with
    | some es => exact find?_bucketPut hput ri
    | none =>
      rw [Option.getD_none]
      by_cases hri : d.pi = ri
      · rw [if_pos hri, List.find?_cons_of_pos (by simpa using hri)]
        have hnone := find?_of_bucketPut_none hput
        rw [hri] at hnone
        rw [hnone]
        rfl
      · rw [if_neg hri, List.find?_cons_of_neg (by simpa using hri)]
  · rw [if_neg hb, if_neg fun hri => hb (by rw [hri])]

/-- The map gives the records with a `pi`, the last one first. -/
theorem get_restructDescendantArrToHash (l : List Descendant) (ri : CStr) :
    (restructDescendantArrToHash l).get ri = pimapGet l ri := by
  have hfold : ∀ (l : List Descendant) (m : PiMap), (l.foldl PiMap.put m).get ri = pimapGet l ri ++ m.get ri := by
    intro l
    induction l with
    | nil => exact fun _ => rfl
    | cons d l ih =>
      intro m
      rw [List.foldl_cons, ih, PiMap.get_put]
      unfold pimapGet
      by_cases hri : d.pi = ri
      · rw [if_pos hri, List.filter_cons_of_pos (by simpa using hri), List.reverse_cons, List.append_assoc]
        rfl
      · rw [if_neg hri, List.filter_cons_of_neg (by simpa using hri)]
  exact (hfold l _).trans (List.append_nil _)

/-! ## The response -/

/-- An object of the response, with the members that have child resources in their order. -/
inductive Shown where
  | mk (descendant : Descendant) (groups : List (CStr × List Shown))

def Shown.descendant : Shown → Descendant
  | mk d _ => d

/-- An object is added to the array of a member, which is made where there is none. -/
def addToGroup (key : CStr) (s : Shown) : List (CStr × List Shown) → List (CStr × List Shown)
  | [] => [(key, [s])]
  | g :: gs => if sameKey g.1 key then (g.1, g.2 ++ [s]) :: gs else g :: addToGroup key s gs

/-- `attach_descendant_to_target` below an object and its `ri`: the members of that object, and the records whose objects
are still in the array. -/
def attachDescendantToTarget (key : Obj → Descendant → CStr) (m : PiMap) :
    Nat → List Descendant → Obj → CStr → Option (List (CStr × List Shown) × List Descendant)
  | 0, _, _, _ => none
  | fuel + 1, arr, parent, ri =>
    (m.get ri).foldlM (fun s d =>
      (attachDescendantToTarget key m fuel (s.2.filter fun x => x.ri ≠ d.ri) d.obj d.ri).map fun r =>
        (addToGroup (key parent d) (.mk d r.1) s.1, r.2)) ([], arr)

/-- `attach_orphans_to_target`. -/
def attachOrphansToTarget (orphanKey : Descendant → CStr) (groups : List (CStr × List Shown)) (arr : List Descendant) :
    List (CStr × List Shown) :=
  arr.foldl (fun gs d => addToGroup (orphanKey d) (.mk d []) gs) groups

/-- The members of the target with the objects of the records in them. -/
def nestedResponse (key : Obj → Descendant → CStr) (orphanKey : Descendant → CStr) (fuel : Nat) (l : List Descendant)
    (target : Obj) (ri : CStr) : Option (List (CStr × List Shown)) :=
  (attachDescendantToTarget key (restructDescendantArrToHash l) fuel l target ri).map fun r =>
    attachOrphansToTarget orphanKey r.1 r.2

/-- An object in the response: the `ri` of the object it is in, the member, and the record. -/
structure ShownAt where
  parent : CStr
  member : CStr
  descendant : Descendant

mutual

/-- The places below an object. -/
def Shown.places : Shown → List ShownAt
  | .mk d groups => groupPlaces d.ri groups
termination_by structural s => s

/-- The places in the members of an object; the letters of a member may be written in either case. -/
def groupPlaces (parent : CStr) : List (CStr × List Shown) → List ShownAt
  | [] => []
  | (member, items) :: gs => itemPlaces parent (member.map Char.toLower) items ++ groupPlaces parent gs
termination_by structural gs => gs

def itemPlaces (parent member : CStr) : List Shown → List ShownAt
  | [] => []
  | s :: l => ⟨parent, member, s.descendant⟩ :: (s.places ++ itemPlaces parent member l)
termination_by structural l => l

end

/-! ## What is placed -/

theorem itemPlaces_snoc (parent member : CStr) (s : Shown) (l : List Shown) :
    itemPlaces parent member (l ++ [s]) = itemPlaces parent member l ++ ⟨parent, member, s.descendant⟩ :: s.places := by
  induction l with
  | nil =>
    show _ :: (s.places ++ itemPlaces parent member []) = _
    rw [itemPlaces, List.append_nil]
    rfl
  | cons x l ih =>
    rw [List.cons_append, itemPlaces, itemPlaces, ih, List.cons_append, List.append_assoc]

theorem lower_of_sameKey {a b : CStr} (h : sameKey a b = true) : a.map Char.toLower = b.map Char.toLower :=
  of_decide_eq_true h

/-- Adding an object adds its place and the places below it. -/
theorem groupPlaces_addToGroup (parent member : CStr) (s : Shown) (gs : List (CStr × List Shown)) :
    (groupPlaces parent (addToGroup member s gs)).Perm
      (⟨parent, member.map Char.toLower, s.descendant⟩ :: (s.places ++ groupPlaces parent gs)) := by
  induction gs with
  | nil =>
    rw [addToGroup, groupPlaces, groupPlaces, itemPlaces, itemPlaces, List.append_nil, groupPlaces, List.append_nil]
  | cons g gs ih =>
    obtain ⟨name, items⟩ := g
    rw [addToGroup]
    split
    · rename_i hsame
      rw [groupPlaces, groupPlaces, itemPlaces_snoc, lower_of_sameKey hsame, List.append_assoc]
      refine List.perm_append_comm.trans ?_
      rw [List.cons_append, List.cons_append, List.append_assoc]
      exact (List.Perm.append_left _ List.perm_append_comm).cons _
    · rw [groupPlaces, groupPlaces]
      refine (ih.append_left _).trans (List.perm_middle.trans (.cons _ ?_))
      rw [← List.append_assoc, ← List.append_assoc]
      exact List.perm_append_comm.append_right _

section Response

variable (key : Obj → Descendant → CStr) (orphanKey : Descendant → CStr) (l : List Descendant) (target : Obj) (ri : CStr)

/-- The object of the target, or of a record. -/
def objAt : Option Descendant → Obj
  | none => target
  | some d => d.obj

/-- The place a record is given below its parent. -/
def placeBelow (x : Option Descendant × Descendant) : ShownAt :=
  ⟨Hanging.keyOf Descendant.ri ri x.1, (key (objAt target x.1) x.2).map Char.toLower, x.2⟩

/-- The place of a record that is left. -/
def placeOfOrphan (d : Descendant) : ShownAt := ⟨ri, (orphanKey d).map Char.toLower, d⟩

variable {key orphanKey l target ri}

/-- The records whose objects a visit did not move. -/
def stillThere (v : List (Option Descendant × Descendant)) (arr : List Descendant) : List Descendant :=
  arr.filter fun x => !v.any fun y => y.2.ri = x.ri

theorem stillThere_append (v w : List (Option Descendant × Descendant)) (arr : List Descendant) :
    stillThere w (stillThere v arr) = stillThere (v ++ w) arr := by
  unfold stillThere
  rw [List.filter_filter]
  refine List.filter_congr fun x _ => ?_
  rw [List.any_append, Bool.not_or, Bool.and_comm]

variable (key target) in
/-- Attaching below an object places the records that a visit from it yields, and takes their objects out of the array. -/
theorem attachDescendantToTarget_of_visit {fuel : Nat} {p : Option Descendant} {v : List (Option Descendant × Descendant)}
    (h : Hanging.visit Descendant.ri ri (pimapGet l) fuel p = some v) (arr : List Descendant) :
    ∃ gs, attachDescendantToTarget key (restructDescendantArrToHash l) fuel arr (objAt target p)
        (Hanging.keyOf Descendant.ri ri p) = some (gs, stillThere v arr) ∧
      (groupPlaces (Hanging.keyOf Descendant.ri ri p) gs).Perm (v.map (placeBelow key target ri)) := by
  induction fuel generalizing p v arr with
  | zero => cases h
  | succ fuel ih =>
    rw [Hanging.visit] at h
    obtain ⟨vs, hvs, rfl⟩ := Option.map_eq_some_iff.mp h
    rw [attachDescendantToTarget, get_restructDescendantArrToHash]
    generalize pimapGet l (Hanging.keyOf Descendant.ri ri p) = cs at hvs
    -- over the slots, whatever is in the object and in the array before
    have hslots : ∀ (cs : List Descendant) (vs : List (List (Option Descendant × Descendant)))
      (gs : List (CStr × List Shown))
        (arr : List Descendant),
        (cs.mapM fun c => (Hanging.visit Descendant.ri ri (pimapGet l) fuel (some c)).map ((p, c) :: ·)) = some vs →
        ∃ gs', cs.foldlM (fun s d =>
            (attachDescendantToTarget key (restructDescendantArrToHash l) fuel (s.2.filter fun x => x.ri ≠ d.ri) d.obj
              d.ri).map fun r => (addToGroup (key (objAt target p) d) (.mk d r.1) s.1, r.2)) (gs, arr) =
              some (gs', stillThere vs.flatten arr) ∧
          (groupPlaces (Hanging.keyOf Descendant.ri ri p) gs').Perm
            (vs.flatten.map (placeBelow key target ri) ++ groupPlaces (Hanging.keyOf Descendant.ri ri p) gs) := by
      intro cs
      induction cs with
      | nil =>
        intro vs gs arr hvs
        cases hvs
        refine ⟨gs, ?_, .refl _⟩
        rw [List.foldlM_nil]
        exact congrArg some (congrArg (Prod.mk gs) (List.filter_eq_self.mpr fun _ _ => rfl).symm)
      | cons c cs ihcs =>
        intro vs gs arr hvs
        rw [List.mapM_cons] at hvs
        obtain ⟨u, hu, hvs⟩ := Option.bind_eq_some_iff.mp hvs
        obtain ⟨us, hus, hvs⟩ := Option.bind_eq_some_iff.mp hvs
        obtain ⟨w, hw, rfl⟩ := Option.map_eq_some_iff.mp hu
        cases hvs
        obtain ⟨gc, hattach, hplaces⟩ := ih hw (arr.filter fun x => x.ri ≠ c.ri)
        obtain ⟨gs', hfold, hperm⟩ := ihcs us (addToGroup (key (objAt target p) c) (.mk c gc) gs)
          (stillThere w (arr.filter fun x => x.ri ≠ c.ri)) hus
        have hrest : stillThere w (arr.filter fun x => x.ri ≠ c.ri) = stillThere ((p, c) :: w) arr := by
          rw [← List.singleton_append, ← stillThere_append]
          refine congrArg _ (List.filter_congr fun x _ => ?_)
          rw [List.any_cons, List.any_nil, Bool.or_false, decide_not, decide_eq_decide.mpr eq_comm]
        refine ⟨gs', ?_, hperm.trans ?_⟩
        · rw [List.foldlM_cons]
          refine (congrArg (Option.bind · _) ((congrArg (Option.map _) hattach).trans (Option.map_some ..))).trans ?_
          rw [Option.bind_some, hfold, hrest, stillThere_append, List.flatten_cons]
        · rw [List.flatten_cons, List.map_append, List.append_assoc]
          refine ((groupPlaces_addToGroup ..).append_left _).trans ?_
          rw [List.map_cons, List.cons_append]
          refine List.perm_middle.trans (.cons _ ?_)
          rw [← List.append_assoc, ← List.append_assoc]
          exact (List.perm_append_comm.trans (hplaces.append_right _)).append_right _
    obtain ⟨gs, hgs, hperm⟩ := hslots cs vs [] arr hvs
    refine ⟨gs, hgs, hperm.trans ?_⟩
    rw [groupPlaces, List.append_nil]

/-- Attaching what is left places it in the target. -/
theorem groupPlaces_attachOrphansToTarget (gs : List (CStr × List Shown)) (arr : List Descendant) :
    (groupPlaces ri (attachOrphansToTarget orphanKey gs arr)).Perm
      (arr.map (placeOfOrphan orphanKey ri) ++ groupPlaces ri gs) := by
  unfold attachOrphansToTarget
  induction arr generalizing gs with
  | nil => exact .refl _
  | cons d arr ih =>
    rw [List.foldl_cons]
    refine (ih _).trans (((groupPlaces_addToGroup ..).append_left _).trans ?_)
    exact List.perm_middle

variable (l ri)

/-- The records from the target to this one are all there. -/
def Hangs (d : Descendant) : Prop := Hanging.Beneath Descendant.ri Descendant.pi ri l none d

variable {l ri}

theorem Hangs.mem {d : Descendant} (h : Hangs l ri d) : d ∈ l := by
  obtain ⟨j, c, hc, -, hunder⟩ := h
  exact hunder.mem hc

section Keys

variable (hkeys : (l.map Descendant.ri).Nodup) (hroot : ri ∉ l.map Descendant.ri)

include hkeys

/-- What a visit from the target leaves are the records that do not hang from it. -/
theorem mem_stillThere {v : List (Option Descendant × Descendant)}
    (hv : Hanging.Visited Descendant.ri Descendant.pi ri l none v) {d : Descendant} :
    d ∈ stillThere v l ↔ d ∈ l ∧ ¬ Hangs l ri d := by
  rw [stillThere, List.mem_filter, Bool.not_eq_true', ← Bool.not_eq_true, List.any_eq_true]
  refine and_congr_right fun hd => not_congr ⟨fun hm => ?_, fun hh => ?_⟩
  · obtain ⟨⟨q, a⟩, hqa, hri⟩ := hm
    have ha : Hangs l ri a := (hv.parent q a hqa).2.1
    rwa [Hanging.eq_of_key hkeys hd ha.mem (of_decide_eq_true hri).symm]
  · obtain ⟨x, hx, rfl⟩ := List.mem_map.mp (hv.all d hh)
    exact ⟨x, hx, decide_eq_true rfl⟩

/-- What a visit moves and what it leaves are the records. -/
theorem perm_of_visited {v : List (Option Descendant × Descendant)}
    (hv : Hanging.Visited Descendant.ri Descendant.pi ri l none v) : (stillThere v l ++ v.map Prod.snd).Perm l := by
  have hnodup : l.Nodup := .of_map _ hkeys
  have hhangs : ∀ d ∈ v.map Prod.snd, Hangs l ri d := by
    intro d hd
    obtain ⟨⟨q, a⟩, hqa, rfl⟩ := List.mem_map.mp hd
    exact (hv.parent q a hqa).2.1
  have hdisjoint : List.Disjoint (stillThere v l) (v.map Prod.snd) :=
    fun d hleft hmoved => ((mem_stillThere hkeys hv).mp hleft).2 (hhangs d hmoved)
  have hleft : (stillThere v l).Nodup := hnodup.filter _
  refine (List.perm_ext_iff_of_nodup (hleft.append hv.nodup hdisjoint) hnodup).mpr fun d => ?_
  rw [List.mem_append, mem_stillThere hkeys hv]
  constructor
  · rintro (hleft | hmoved)
    · exact hleft.1
    · exact (hhangs d hmoved).mem
  · intro hd
    by_cases hh : Hangs l ri d
    · exact .inr (hv.all d hh)
    · exact .inl ⟨hd, hh⟩

/-- The places of a response are those of the records. -/
theorem places_perm {v : List (Option Descendant × Descendant)} {places : List ShownAt}
    (hv : Hanging.Visited Descendant.ri Descendant.pi ri l none v)
    (hperm : places.Perm ((stillThere v l).map (placeOfOrphan orphanKey ri) ++ v.map (placeBelow key target ri))) :
    (places.map ShownAt.descendant).Perm l := by
  refine (hperm.map _).trans ?_
  rw [List.map_append, List.map_map, List.map_map,
    show ShownAt.descendant ∘ placeOfOrphan orphanKey ri = id from rfl, List.map_id]
  exact perm_of_visited hkeys hv

/-- Where a record is: in its parent's object or in the target's. -/
theorem place_of_visited {v : List (Option Descendant × Descendant)}
    (hv : Hanging.Visited Descendant.ri Descendant.pi ri l none v) {x : ShownAt}
    (hx : x ∈ (stillThere v l).map (placeOfOrphan orphanKey ri) ++ v.map (placeBelow key target ri)) :
    (Hangs l ri x.descendant → x.parent = x.descendant.pi ∧
      (x.parent = ri ∧ x.member = (key target x.descendant).map Char.toLower ∨
        ∃ p ∈ l, x.parent = p.ri ∧ x.member = (key p.obj x.descendant).map Char.toLower)) ∧
    (¬ Hangs l ri x.descendant → x = ⟨ri, (orphanKey x.descendant).map Char.toLower, x.descendant⟩) := by
  rcases List.mem_append.mp hx with hx | hx
  · obtain ⟨d, hd, rfl⟩ := List.mem_map.mp hx
    exact ⟨fun hh => absurd hh ((mem_stillThere hkeys hv).mp hd).2, fun _ => rfl⟩
  · obtain ⟨⟨q, d⟩, hqd, rfl⟩ := List.mem_map.mp hx
    obtain ⟨hpi, hh, hq⟩ := hv.parent q d hqd
    refine ⟨fun _ => ⟨hpi.symm, ?_⟩, fun hno => absurd hh hno⟩
    cases q with
    | none => exact .inl ⟨rfl, rfl⟩
    | some p => exact .inr ⟨p, hq p rfl, rfl, rfl⟩

include hroot

variable (key orphanKey target) in
/-- The response is made, of the places a visit gives and of those of the records it leaves. -/
theorem nestedResponse_cases {fuel : Nat} (hfuel : l.length < fuel) :
    ∃ v groups, Hanging.Visited Descendant.ri Descendant.pi ri l none v ∧
      nestedResponse key orphanKey fuel l target ri = some groups ∧
      (groupPlaces ri groups).Perm
        ((stillThere v l).map (placeOfOrphan orphanKey ri) ++ v.map (placeBelow key target ri)) := by
  have hchildren : ∀ k, (pimapGet l k).Perm (l.filter fun d => d.pi = k) := fun _ => List.reverse_perm _
  obtain ⟨v, hvisit, hv⟩ := Hanging.visit_at hkeys hroot hchildren (p := none) (n := 0) rfl hfuel
  obtain ⟨gs, hattach, hperm⟩ := attachDescendantToTarget_of_visit key target hvisit l
  refine ⟨v, attachOrphansToTarget orphanKey gs (stillThere v l), hv, ?_, ?_⟩
  · exact congrArg (Option.map fun r => attachOrphansToTarget orphanKey r.1 r.2) hattach
  · exact (groupPlaces_attachOrphansToTarget ..).trans (hperm.append_left _)

end Keys

/-- The response to a retrieve with child resources is made for any records with their own `ri`, none of them the
target's, whatever their `pi`: cycles among them end, too. Each record's object is in it once. It is in its parent's
object under the member for its type when the records from the target to it are all there, and else in the target's. -/
theorem nested_response (hkeys : (l.map Descendant.ri).Nodup) (hroot : ri ∉ l.map Descendant.ri) {fuel : Nat}
    (hfuel : l.length < fuel) :
    ∃ groups, nestedResponse key orphanKey fuel l target ri = some groups ∧
      ((groupPlaces ri groups).map ShownAt.descendant).Perm l ∧
      ∀ x ∈ groupPlaces ri groups,
        (Hangs l ri x.descendant → x.parent = x.descendant.pi ∧
          (x.parent = ri ∧ x.member = (key target x.descendant).map Char.toLower ∨
            ∃ p ∈ l, x.parent = p.ri ∧ x.member = (key p.obj x.descendant).map Char.toLower)) ∧
        (¬ Hangs l ri x.descendant → x = ⟨ri, (orphanKey x.descendant).map Char.toLower, x.descendant⟩) := by
  obtain ⟨v, groups, hv, hresp, hperm⟩ := nestedResponse_cases key orphanKey target hkeys hroot hfuel
  refine ⟨groups, hresp, ?_, fun x hx => ?_⟩
  · exact places_perm hkeys hv hperm
  · exact place_of_visited hkeys hv (hperm.mem_iff.mp hx)

/-- No record is lost and none is there twice: each is at one place, in the object its `pi` names where the records from the
target to it are all there, and else in the target's. -/
theorem placed_once (hkeys : (l.map Descendant.ri).Nodup) (hroot : ri ∉ l.map Descendant.ri) {fuel : Nat}
    (hfuel : l.length < fuel) :
    ∃ groups, nestedResponse key orphanKey fuel l target ri = some groups ∧
      ((groupPlaces ri groups).map fun x => x.descendant.ri).Nodup ∧ (∀ x ∈ groupPlaces ri groups, x.descendant ∈ l) ∧
      ∀ d ∈ l, ∃ x ∈ groupPlaces ri groups, x.descendant = d ∧
        (Hangs l ri d → x.parent = d.pi ∧ (x.parent = ri ∧ x.member = (key target d).map Char.toLower ∨
          ∃ p ∈ l, x.parent = p.ri ∧ x.member = (key p.obj d).map Char.toLower)) ∧
        (¬ Hangs l ri d → x.parent = ri ∧ x.member = (orphanKey d).map Char.toLower) := by
  obtain ⟨v, groups, hv, hresp, hplaces⟩ := nestedResponse_cases key orphanKey target hkeys hroot hfuel
  have hperm : ((groupPlaces ri groups).map ShownAt.descendant).Perm l := places_perm hkeys hv hplaces
  refine ⟨groups, hresp, ?_, fun x hx => hperm.mem_iff.mp (List.mem_map_of_mem hx), fun d hd => ?_⟩
  · have hri := hperm.map Descendant.ri
    rw [List.map_map] at hri
    exact hri.nodup_iff.mpr hkeys
  · obtain ⟨x, hx, rfl⟩ := List.mem_map.mp (hperm.mem_iff.mpr hd)
    obtain ⟨hhangs, horphan⟩ := place_of_visited hkeys hv (hplaces.mem_iff.mp hx)
    refine ⟨x, hx, rfl, hhangs, fun hno => ?_⟩
    rw [horphan hno]
    exact ⟨rfl, rfl⟩

end Response

/-- A container with a child in the target, and two more that name each other. -/
def cyclicRecords : List Descendant :=
  [("1", "0"), ("2", "1"), ("3", "4"), ("4", "3")].map fun e => ⟨e.1.toList, e.2.toList, .cnt, [], []⟩

theorem nested_response_cyclic :
    ∃ groups, nestedResponse (fun _ _ => "m2m:cnt".toList) (fun _ => "m2m:cnt".toList) 5 cyclicRecords [] "0".toList =
        some groups ∧
      ((groupPlaces "0".toList groups).map ShownAt.descendant).Perm cyclicRecords := by
  obtain ⟨groups, hresp, hperm, -⟩ := @nested_response (fun _ _ => "m2m:cnt".toList) (fun _ => "m2m:cnt".toList)
    cyclicRecords [] "0".toList (by decide) (by decide) 5 (by decide)
  exact ⟨groups, hresp, hperm⟩

/-- Those that name each other are in the target's object. -/
theorem placed_once_cyclic :
    ∃ groups, nestedResponse (fun _ _ => "m2m:cnt".toList) (fun _ => "m2m:cnt".toList) 5 cyclicRecords [] "0".toList =
        some groups ∧
      ((groupPlaces "0".toList groups).map fun x => x.descendant.ri).Nodup ∧
      ∀ d ∈ cyclicRecords, ∃ x ∈ groupPlaces "0".toList groups, x.descendant = d ∧
        (Hangs cyclicRecords "0".toList d → x.parent = d.pi) ∧
        (¬ Hangs cyclicRecords "0".toList d → x.parent = "0".toList) := by
  obtain ⟨groups, hresp, hnodup, -, hall⟩ := @placed_once (fun _ _ => "m2m:cnt".toList) (fun _ => "m2m:cnt".toList)
    cyclicRecords [] "0".toList (by decide) (by decide) 5 (by decide)
  refine ⟨groups, hresp, hnodup, fun d hd => ?_⟩
  obtain ⟨x, hx, hxd, hhangs, horphan⟩ := hall d hd
  exact ⟨x, hx, hxd, fun h => (hhangs h).1, fun h => (horphan h).1⟩

end TinyIoT
