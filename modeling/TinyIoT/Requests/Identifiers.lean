/-
The identifiers the CSE assigns: a prefix for the type, the time of the request and four digits of a counter that all
types share and that starts over at 10000. They do not come back while the time does not go back and the counter does
not go round within one time. What a client gives is compared with the registered AEs below the parent only, so an
identifier may be a client's and the CSE's at once.
-/
import TinyIoT.Requests.Run

namespace TinyIoT

variable {w : Outside} {req : Req} {s s' : Server} {n : RTNode} {r : Resp} {ty : ResourceType}

/-! ## Times and numbers in an identifier -/

theorem strLt_cons {x y : Char} {a b : CStr} :
    strLt (y :: b) (x :: a) = false ↔ x.toNat ≤ y.toNat ∧ (y = x → strLt b a = false) := by
  have hlt : (y < x) ↔ y.toNat < x.toNat := UInt32.lt_iff_toNat_lt
  show (decide (y < x) || (decide (y = x) && strLt b a)) = false ↔ _
  rw [Bool.or_eq_false_iff, decide_eq_false_iff_not, hlt, Nat.not_lt]
  refine and_congr_right fun _ => ?_
  by_cases hxy : y = x
  · simp [hxy]
  · simp [hxy]

/-- The order of C strings goes through. -/
theorem strLt_trans {a b c : CStr} (h : strLt b a = false) (h' : strLt c b = false) : strLt c a = false := by
  induction a generalizing b c with
  | nil =>
    cases c with
    | nil => rfl
    | cons z c =>
      cases b with
      | nil => rfl
      | cons y b => rfl
  | cons x a ih =>
    cases b with
    | nil => cases h
    | cons y b =>
      cases c with
      | nil => cases h'
      | cons z c =>
        obtain ⟨hxy, hab⟩ := strLt_cons.mp h
        obtain ⟨hyz, hbc⟩ := strLt_cons.mp h'
        refine strLt_cons.mpr ⟨hxy.trans hyz, ?_⟩
        rintro rfl
        -- the letter between the two is the same
        obtain rfl : z = y := Char.toNat_inj.mp (Nat.le_antisymm hxy hyz)
        exact ih (hab rfl) (hbc rfl)

/-- Two strings that are not before each other are the same. -/
theorem eq_of_strLt {a b : CStr} (h : strLt b a = false) (h' : strLt a b = false) : a = b := by
  induction a generalizing b with
  | nil =>
    cases b with
    | nil => rfl
    | cons y b => cases h'
  | cons x a ih =>
    cases b with
    | nil => cases h
    | cons y b =>
      obtain ⟨hxy, hab⟩ := strLt_cons.mp h
      obtain ⟨hyx, hba⟩ := strLt_cons.mp h'
      obtain rfl : x = y := Char.toNat_inj.mp (Nat.le_antisymm hxy hyx)
      rw [ih (hab rfl) (hba rfl)]

theorem strLt_self (a : CStr) : strLt a a = false := by
  induction a with
  | nil => rfl
  | cons x a ih => exact strLt_cons.mpr ⟨le_rfl, fun _ => ih⟩

theorem pad4_length (k : Nat) : (pad4 k).length = 4 := rfl

/-- Four digits say which number below 10000 it is. -/
theorem pad4_inj {j k : Nat} (hj : j < 10000) (hk : k < 10000) (h : pad4 j = pad4 k) : j = k := by
  have hdigit : ∀ x < 10, ∀ y < 10, Nat.digitChar x = Nat.digitChar y → x = y := by decide
  unfold pad4 at h
  simp only [List.map_cons, List.map_nil, List.cons.injEq, and_true] at h
  obtain ⟨h1, h2, h3, h4⟩ := h
  have h1 := hdigit _ (Nat.mod_lt _ (by omega)) _ (Nat.mod_lt _ (by omega)) h1
  have h2 := hdigit _ (Nat.mod_lt _ (by omega)) _ (Nat.mod_lt _ (by omega)) h2
  have h3 := hdigit _ (Nat.mod_lt _ (by omega)) _ (Nat.mod_lt _ (by omega)) h3
  have h4 := hdigit _ (Nat.mod_lt _ (by omega)) _ (Nat.mod_lt _ (by omega)) h4
  omega

/-- The time and the number can be read off the end of an identifier. -/
theorem identifier_inj {p q t u : CStr} {j k : Nat} (hj : j < 10000) (hk : k < 10000) (hlen : t.length = u.length)
    (h : p ++ t ++ pad4 j = q ++ u ++ pad4 k) : t = u ∧ j = k := by
  obtain ⟨hfront, hnumber⟩ := List.append_inj' h (by rw [pad4_length, pad4_length])
  exact ⟨(List.append_inj' hfront hlen).2, pad4_inj hj hk hnumber⟩

/-- An identifier the CSE may still assign, when its clock shows `now`, the next number is `count` and `used` numbers
have been drawn at this time. -/
def ToCome (now : CStr) (used count : Nat) (ri : CStr) : Prop :=
  ∃ p t k, ri = p ++ t ++ pad4 k ∧ k < 10000 ∧ t.length = now.length ∧ strLt t now = false ∧
    (t = now → (k + 10000 - count) % 10000 < 10000 - used)

section ToCome

variable {now t : CStr} {used count d i : Nat} {ri : CStr}

theorem append_pad4_ne_nil (p : CStr) (k : Nat) : p ++ pad4 k ≠ [] :=
  fun h => absurd (List.append_eq_nil_iff.mp h).2 (List.cons_ne_nil _ _)

theorem ToCome.ne_nil (h : ToCome now used count ri) : ri ≠ [] := by
  obtain ⟨p, t, k, rfl, -⟩ := h
  exact append_pad4_ne_nil _ k

/-- What is to come at a later time was to come before. -/
theorem ToCome.earlier {u : CStr} (h : ToCome u (if u = now then used else 0) count ri) (hlen : u.length = now.length)
    (hlater : strLt u now = false) : ToCome now used count ri := by
  obtain ⟨p, t, k, rfl, hk, hlent, hltt, hnumber⟩ := h
  refine ⟨p, t, k, rfl, hk, hlent.trans hlen, strLt_trans hlater hltt, ?_⟩
  rintro rfl
  obtain rfl : t = u := eq_of_strLt hlater hltt
  have := hnumber rfl
  rwa [if_pos rfl] at this

/-- What is to come after some numbers are drawn was to come before. -/
theorem ToCome.before_draw (h : ToCome now (used + d) ((count + d) % 10000) ri) (hcount : count < 10000) :
    ToCome now used count ri := by
  obtain ⟨p, t, k, rfl, hk, hlen, hlt, hnumber⟩ := h
  refine ⟨p, t, k, rfl, hk, hlen, hlt, fun ht => ?_⟩
  have := hnumber ht
  omega

/-- The next numbers are to come, -/
theorem toCome_next (p : CStr) (hi : i < d) (hroom : used + d < 10000) :
    ToCome now used count (p ++ now ++ pad4 ((count + i) % 10000)) := by
  refine ⟨p, now, _, rfl, Nat.mod_lt _ (by omega), rfl, strLt_self now, fun _ => ?_⟩
  omega

/-- and not when they are drawn. -/
theorem not_toCome_drawn (p : CStr) (hi : i < d) (hroom : used + d < 10000) :
    ¬ ToCome now (used + d) ((count + d) % 10000) (p ++ now ++ pad4 ((count + i) % 10000)) := by
  rintro ⟨q, t, k, heq, hk, hlen, -, hnumber⟩
  obtain ⟨rfl, rfl⟩ := identifier_inj (Nat.mod_lt _ (by omega)) hk hlen.symm heq
  have := hnumber rfl
  omega

end ToCome

/-! ## Whose identifier it is -/

theorem givenRi_assigned {env : Env} {c : Nat} {body : Obj} (h : body.has .ri = false) {ri : CStr}
    (hri : givenRi env ty c body = some ri) : ri = riPrefix ty ++ env.now ++ pad4 c := by
  unfold givenRi at hri
  rw [show body.get .ri = none from Assoc.has_eq_false.mp h] at hri
  cases hri
  rfl

namespace Server.Write

/-- The first identifier is the client's: the body brings one, or the originator of an AE has a name. -/
def byClient (req : Req) : Write → Bool
  | .create ty => req.pc.has .ri ||
      (ty = .ae && decide (2 ≤ req.fr.length) && (req.fr.head? = some 'C' || req.fr.head? = some 'S'))
  | .update _ => false

/-- The identifiers the client chooses. -/
def chosen (w : Outside) (req : Req) (s : Server) (n : RTNode) (a : Write) : List CStr :=
  (if a.byClient req then (a.ids w req s n).take 1 else []).filterMap fun id => id

/-- The identifiers the CSE assigns. -/
def assigned (w : Outside) (req : Req) (s : Server) (n : RTNode) (a : Write) : List CStr :=
  (if a.byClient req then (a.ids w req s n).drop 1 else a.ids w req s n).filterMap fun id => id

/-- What the client chooses no resource goes by, and what the CSE assigns is not what a client chose before for a resource
there is, nor what this one chooses. -/
structure Proper (w : Outside) (req : Req) (s : Server) (before : List CStr) (n : RTNode) (a : Write) : Prop where
  new : ∀ ri ∈ a.chosen w req s n, ri ≠ [] ∧ ¬ s.Knows ri
  free : ∀ ri ∈ a.assigned w req s n, (∀ q ∈ a.chosen w req s n, q ≠ ri) ∧ ∀ q ∈ before, q = ri → ¬ s.Knows ri
  name : a.NamesNoLatest req s n

instance (before : List CStr) (a : Write) : Decidable (a.Proper w req s before n) :=
  decidable_of_iff ((∀ ri ∈ a.chosen w req s n, ri ≠ [] ∧ ¬ s.Knows ri) ∧
    (∀ ri ∈ a.assigned w req s n, (∀ q ∈ a.chosen w req s n, q ≠ ri) ∧ ∀ q ∈ before, q = ri → ¬ s.Knows ri) ∧
    a.NamesNoLatest req s n)
    ⟨fun h => ⟨h.1, h.2.1, h.2.2⟩, fun h => ⟨h.new, h.free, h.name⟩⟩

variable {a : Write} {before : List CStr} {d used : Nat} {l : List Obj} {ri : CStr}

/-- A create handler stores under one identifier, that of a flexContainer under another one for its instance. -/
theorem createIds_cases (req : Req) (ty : ResourceType) (env : Env) (c : Nat) : createIds env req c ty = [] ∨
    ty = .ae ∧ createIds env req c ty = [aeRi req.fr (givenRi env .ae c req.pc)] ∨
    (∃ ty', createIds env req c ty = [givenRi env ty' c req.pc]) ∨
    createIds env req c ty = [givenRi env .fcnt c req.pc, some (resourceIdentifier .fcin env.now ((c + 1) % 10000)).1] := by
  cases ty with
  | ae => exact .inr (.inl ⟨rfl, rfl⟩)
  | fcnt => exact .inr (.inr (.inr rfl))
  | _ =>
    first
    | exact .inl rfl
    | exact .inr (.inr (.inl ⟨_, rfl⟩))

theorem ids_length_le (w : Outside) (req : Req) (s : Server) (n : RTNode) (a : Write) : (a.ids w req s n).length ≤ 2 := by
  cases a with
  | create ty =>
    show (if s.admits req ty n then createIds w.env req s.riCount ty else []).length ≤ 2
    split
    · rcases createIds_cases req ty w.env s.riCount with h | ⟨-, h⟩ | ⟨ty', h⟩ | h <;> rw [h] <;> simp
    · exact Nat.zero_le _
  | update ty =>
    show (if ty = .fcnt then [some (resourceIdentifier .fcin w.env.now s.riCount).1] else []).length ≤ 2
    split <;> simp

/-- The identifier of an AE without a name and without one in the body. -/
theorem aeRi_assigned {env : Env} {c : Nat} (h : (Write.create .ae).byClient req = false)
    (hri : aeRi req.fr (givenRi env .ae c req.pc) = some ri) : ∃ p, ri = p ++ env.now ++ pad4 c := by
  have hdef : (req.pc.has .ri || (decide (ResourceType.ae = .ae) && decide (2 ≤ req.fr.length) &&
      (decide (req.fr.head? = some 'C') || decide (req.fr.head? = some 'S')))) = false := h
  rw [Bool.or_eq_false_iff] at hdef
  obtain ⟨hbody, hname⟩ := hdef
  unfold aeRi at hri
  split at hri
  · rename_i heq
    rw [heq] at hname
    exact absurd hname (by simp)
  · rename_i heq
    rw [heq] at hname
    exact absurd hname (by simp)
  · -- 'S' for the first letter of the assigned one
    obtain ⟨ri', hgiven, rfl⟩ := Option.map_eq_some_iff.mp hri
    rw [givenRi_assigned hbody hgiven]
    exact ⟨"SAE".toList, rfl⟩
  · exact ⟨_, givenRi_assigned hbody hri⟩

/-- Every identifier but the client's ends in the time and the next number. -/
theorem ids_assigned (hcount : s.riCount < 10000) {i : Nat} (hi : (a.ids w req s n)[i]? = some (some ri)) :
    i = 0 ∧ a.byClient req = true ∨ ∃ p, ri = p ++ w.env.now ++ pad4 ((s.riCount + i) % 10000) := by
  have hzero : (s.riCount + 0) % 10000 = s.riCount := Nat.mod_eq_of_lt hcount
  have hsingle : ∀ {x : Option CStr}, [x][i]? = some (some ri) → i = 0 ∧ x = some ri := by
    intro x hx
    cases i with
    | zero => exact ⟨rfl, Option.some.inj hx⟩
    | succ i => cases hx
  cases a with
  | update ty =>
    have hi : (if ty = .fcnt then [some (resourceIdentifier .fcin w.env.now s.riCount).1] else [])[i]? = some (some ri) := hi
    split at hi
    · obtain ⟨rfl, hx⟩ := hsingle hi
      cases hx
      rw [hzero]
      exact .inr ⟨_, rfl⟩
    · cases hi
  | create ty =>
    have hi : (if s.admits req ty n then createIds w.env req s.riCount ty else [])[i]? = some (some ri) := hi
    split at hi
    swap
    · cases hi
    cases hclient : (Write.create ty).byClient req with
    | true =>
      -- only the instance of a flexContainer is not the client's
      rcases createIds_cases req ty w.env s.riCount with h | ⟨-, h⟩ | ⟨ty', h⟩ | h
      · rw [h] at hi
        cases hi
      · rw [h] at hi
        exact .inl ⟨(hsingle hi).1, rfl⟩
      · rw [h] at hi
        exact .inl ⟨(hsingle hi).1, rfl⟩
      · rw [h] at hi
        rcases i with _ | _ | i
        · exact .inl ⟨rfl, rfl⟩
        · cases hi
          exact .inr ⟨_, rfl⟩
        · cases hi
    | false =>
      have hbody : req.pc.has .ri = false := (Bool.or_eq_false_iff.mp hclient).1
      rcases createIds_cases req ty w.env s.riCount with h | ⟨rfl, h⟩ | ⟨ty', h⟩ | h
      · rw [h] at hi
        cases hi
      · rw [h] at hi
        obtain ⟨rfl, hx⟩ := hsingle hi
        rw [hzero]
        exact .inr (aeRi_assigned hclient hx)
      · rw [h] at hi
        obtain ⟨rfl, hx⟩ := hsingle hi
        rw [hzero]
        exact .inr ⟨_, givenRi_assigned hbody hx⟩
      · rw [h] at hi
        rcases i with _ | _ | i
        · rw [hzero]
          exact .inr ⟨_, givenRi_assigned hbody (Option.some.inj hi)⟩
        · cases hi
          exact .inr ⟨_, rfl⟩
        · cases hi

/-- An identifier that is stored under is the client's, or one the CSE assigns with one of the numbers drawn. -/
theorem mem_ids (hcount : s.riCount < 10000) (h : some ri ∈ (a.ids w req s n).take d) : ri ∈ a.chosen w req s n ∨
    ri ∈ a.assigned w req s n ∧ ∃ i < d, ∃ p, ri = p ++ w.env.now ++ pad4 ((s.riCount + i) % 10000) := by
  obtain ⟨i, hi⟩ := List.mem_iff_getElem?.mp h
  rw [List.getElem?_take] at hi
  split at hi
  swap
  · cases hi
  rename_i hlt
  unfold chosen assigned
  rcases ids_assigned hcount hi with ⟨rfl, hclient⟩ | hform
  · rw [if_pos hclient]
    refine .inl (List.mem_filterMap.mpr ⟨some ri, List.mem_of_getElem? (i := 0) ?_, rfl⟩)
    rwa [List.getElem?_take, if_pos Nat.zero_lt_one]
  · cases hclient : a.byClient req with
    | false =>
      rw [if_neg (by decide)]
      exact .inr ⟨List.mem_filterMap.mpr ⟨some ri, List.mem_of_getElem? hi, rfl⟩, i, hlt, hform⟩
    | true =>
      rw [if_pos rfl, if_pos rfl]
      cases i with
      | zero =>
        refine .inl (List.mem_filterMap.mpr ⟨some ri, List.mem_of_getElem? (i := 0) ?_, rfl⟩)
        rwa [List.getElem?_take, if_pos Nat.zero_lt_one]
      | succ i =>
        refine .inr ⟨List.mem_filterMap.mpr ⟨some ri, List.mem_of_getElem? (i := i) ?_, rfl⟩, i + 1, hlt, hform⟩
        rwa [List.getElem?_drop, Nat.add_comm 1 i]

/-- What such a request stores is new, while what the CSE may assign is a client's where there is a resource of it. -/
theorem Proper.fresh (hp : a.Proper w req s before n) (hcount : s.riCount < 10000) (hroom : used + d < 10000)
    (hknown : ∀ ri, s.Knows ri → ri ∈ before ∨ ¬ ToCome w.env.now used s.riCount ri)
    (hl : (l.map (Obj.str · .ri)).Sublist ((a.ids w req s n).take d)) : Fresh s l := by
  constructor
  · intro o ho ri hri
    have hmem : some ri ∈ (a.ids w req s n).take d := hl.subset (List.mem_map.mpr ⟨o, ho, hri⟩)
    rcases mem_ids hcount hmem with hchosen | ⟨hassigned, i, hi, p, rfl⟩
    · exact hp.new ri hchosen
    · refine ⟨append_pad4_ne_nil _ _, fun hk => ?_⟩
      rcases hknown _ hk with hb | hnot
      · exact (hp.free _ hassigned).2 _ hb rfl hk
      · exact hnot (toCome_next p hi hroom)
  · -- of two identifiers the second one has the second number
    have hnodup : ((a.ids w req s n).filterMap fun id => id).Nodup := by
      rcases hids : a.ids w req s n with _ | ⟨x, _ | ⟨y, _ | ⟨z, rest⟩⟩⟩
      · exact List.nodup_nil
      · cases x <;> simp
      · cases x with
        | none => cases y <;> simp
        | some x =>
          cases y with
          | none => simp
          | some y =>
            have hx : some x ∈ (a.ids w req s n).take 1 := by simp [hids]
            have hy : (a.ids w req s n)[1]? = some (some y) := by rw [hids]; rfl
            have hsecond : y ∈ a.assigned w req s n := by
              unfold assigned
              rw [hids]
              split <;> simp
            obtain ⟨q, rfl⟩ := (ids_assigned hcount hy).resolve_left fun h => absurd h.1 (by decide)
            refine List.nodup_cons.mpr ⟨fun hin => ?_, List.nodup_singleton _⟩
            have hsame : x = q ++ w.env.now ++ pad4 ((s.riCount + 1) % 10000) := List.mem_singleton.mp hin
            rcases mem_ids hcount hx with hchosen | ⟨-, i, hi, p, hform⟩
            · exact (hp.free _ hsecond).1 x hchosen hsame
            · obtain ⟨-, hnumber⟩ := identifier_inj (Nat.mod_lt _ (by omega)) (Nat.mod_lt _ (by omega)) rfl
                (hform.symm.trans hsame)
              omega
      · have := ids_length_le w req s n a
        rw [hids] at this
        simp at this
    have := hnodup.sublist ((hl.trans (List.take_sublist _ _)).filterMap fun id => id)
    rwa [List.filterMap_map] at this

/-- What there is after it is a client's or not to come any more. -/
theorem known_of_keeps {K : List Attr} (hcount : s.riCount < 10000) (hroom : used + d < 10000)
    (hknown : ∀ ri, s.Knows ri → ri ∈ before ∨ ¬ ToCome w.env.now used s.riCount ri) (hk : Keeps K s l s')
    (hl : (l.map (Obj.str · .ri)).Sublist ((a.ids w req s n).take d)) (hri : s'.Knows ri) :
    ri ∈ before ++ a.chosen w req s n ∨ ¬ ToCome w.env.now (used + d) ((s.riCount + d) % 10000) ri := by
  by_cases hnil : ri = []
  · exact .inr fun h => h.ne_nil hnil
  rcases hk.known ri hnil hri with hold | ⟨o, ho, hori⟩
  · rcases hknown ri hold with hb | hnot
    · exact .inl (List.mem_append_left _ hb)
    · exact .inr fun h => hnot (h.before_draw hcount)
  · have hmem : some ri ∈ (a.ids w req s n).take d := hl.subset (List.mem_map.mpr ⟨o, ho, hori⟩)
    rcases mem_ids hcount hmem with hchosen | ⟨-, i, hi, p, rfl⟩
    · exact .inl (List.mem_append_right _ hchosen)
    · exact .inr (not_toCome_drawn p hi hroom)

end Server.Write

/-! ## Requests, one after the other -/

namespace Primitive

/-- The identifiers the client chooses. -/
def chosen (w : Outside) (s : Server) : Primitive → List CStr
  | write a req => (s.aimed w.env.now req.target).elim [] fun n => a.chosen w req s n
  | _ => []

/-- What the client chooses is new, and the CSE assigns nothing that a client chose before for a resource there is. -/
def Proper (w : Outside) (s : Server) (before : List CStr) : Primitive → Prop
  | write a req => ∀ n ∈ s.aimed w.env.now req.target, a.Proper w req s before n
  | _ => True

instance (before : List CStr) (p : Primitive) : Decidable (p.Proper w s before) :=
  match p with
  | .write a req => inferInstanceAs (Decidable (∀ n ∈ s.aimed w.env.now req.target, a.Proper w req s before n))
  | .delete _ => inferInstanceAs (Decidable True)
  | .retrieve _ => inferInstanceAs (Decidable True)

end Primitive

/-- The server with the time of the last request, how many numbers were drawn at that time, and the identifiers clients
have chosen. -/
structure Timed where
  server : Server
  stamp : CStr
  used : Nat
  chosen : List CStr

/-- The state after a request. -/
def Timed.next (w : Outside) (c : Timed) (p : Primitive) : Option Timed :=
  (p.run w c.server).map fun s =>
    { server := s
      stamp := w.env.now
      used := (if w.env.now = c.stamp then c.used else 0) + (s.riCount + 10000 - c.server.riCount) % 10000
      chosen := c.chosen ++ p.chosen w c.server }

/-- After the start: the number of the default policy has been drawn. -/
def TimedStart (c : Timed) : Prop := ∃ env s, boot env = some s ∧ c = ⟨s, env.now, 1, []⟩

/-- A request that is not earlier than the last one, in the one format of times, with less than 10000 numbers drawn at
its time. -/
def TimedStep (c c' : Timed) : Prop := ∃ (w : Outside) (p : Primitive), w.env.now.length = c.stamp.length ∧
  strLt w.env.now c.stamp = false ∧ c.next w p = some c' ∧ c'.used < 10000

/-- Such a request, with what is asked of the identifiers it brings. -/
def ProperStep (c c' : Timed) : Prop := ∃ (w : Outside) (p : Primitive), p.Proper w c.server c.chosen ∧
  p.Honest w c.server ∧ w.env.now.length = c.stamp.length ∧ strLt w.env.now c.stamp = false ∧ c.next w p = some c' ∧
  c'.used < 10000

/-- What there is goes by an identifier of a client or by one that is not to come any more. -/
structure Timed.Issued (c : Timed) : Prop where
  stamped : Stamped stampAttrs c.server
  latest : c.server.LatestAreCins
  count : c.server.riCount < 10000
  known : ∀ ri, c.server.Knows ri → ri ∈ c.chosen ∨ ¬ ToCome c.stamp c.used c.server.riCount ri

theorem Edits.riCount_lt {K : List Attr} {d : Nat} {l : List Obj} (h : Edits K s d l s') (hs : s.riCount < 10000) :
    s'.riCount < 10000 := by
  induction h with
  | refl => exact hs
  | edit _ he ih => rwa [he.riCount]
  | draw _ _ => exact Nat.mod_lt _ (by omega)
  | store _ _ ih => exact ih
  | create _ _ _ _ _ _ ih => exact ih

theorem Edits.drawn {K : List Attr} {d : Nat} {l : List Obj} (h : Edits K s d l s') (hs : s.riCount < 10000) (hd : d ≤ 2) :
    s'.riCount = (s.riCount + d) % 10000 ∧ (s'.riCount + 10000 - s.riCount) % 10000 = d := by
  have hlt := h.riCount_lt hs
  have hmod := h.riCount_mod
  constructor
  · rw [← hmod, Nat.mod_eq_of_lt hlt]
  · omega

theorem ProperStep.issued {c c' : Timed} (hi : c.Issued) (h : ProperStep c c') : c'.Issued := by
  obtain ⟨w, p, hp, hh, hlen, hlater, hnext, hroom⟩ := h
  obtain ⟨s', hrun, rfl⟩ := Option.map_eq_some_iff.mp hnext
  -- nothing that the clock still brings has been given
  have hknown : ∀ ri, c.server.Knows ri →
      ri ∈ c.chosen ∨ ¬ ToCome w.env.now (if w.env.now = c.stamp then c.used else 0) c.server.riCount ri := by
    intro ri hri
    exact (hi.known ri hri).imp_right fun hnot h => hnot (h.earlier hlen hlater)
  have hquiet : ∀ {chosen : List CStr}, Edits stampAttrs c.server 0 [] s' → Timed.Issued ⟨s', w.env.now,
      (if w.env.now = c.stamp then c.used else 0) + (s'.riCount + 10000 - c.server.riCount) % 10000,
      c.chosen ++ chosen⟩ := by
    intro chosen he
    obtain ⟨hst, hk⟩ := he.keeps stamps_stampAttrs hi.stamped (.nil _)
    obtain ⟨hcount, hdrawn⟩ := he.drawn hi.count (Nat.zero_le _)
    refine ⟨hst, he.latestAreCins stamps_stampAttrs hi.stamped.sane hi.latest, he.riCount_lt hi.count, fun ri hri => ?_⟩
    show ri ∈ c.chosen ++ chosen ∨ ¬ ToCome _ (_ + _) s'.riCount ri
    rw [hdrawn, hcount]
    by_cases hnil : ri = []
    · exact .inr fun h => h.ne_nil hnil
    · have hold : c.server.Knows ri :=
        (hk.known ri hnil hri).resolve_right fun ⟨o, ho, _⟩ => absurd ho List.not_mem_nil
      rcases hknown ri hold with hb | hnot
      · exact .inl (List.mem_append_left _ hb)
      · exact .inr fun h => hnot (h.before_draw hi.count)
  cases p with
  | write a req =>
    obtain ⟨⟨s₂, r⟩, h₂, rfl⟩ := Option.map_eq_some_iff.mp hrun
    rcases Server.onTarget_cases h₂ with rfl | ⟨n, hn, h₂⟩
    · exact hquiet (Server.edits_findRtnode stamps_stampAttrs hi.stamped.sane req.target)
    · obtain ⟨d, l, hd, he, hids⟩ :=
        Server.edits_write hi.stamped.sane hi.latest (Server.aimed_mem hn) (hp n hn).name (hh n hn) h₂
      obtain ⟨hcount, hdrawn⟩ := he.drawn hi.count (hd.trans (Server.Write.ids_length_le _ _ _ _ a))
      have hroom : (if w.env.now = c.stamp then c.used else 0) + d < 10000 := by
        rw [← hdrawn]
        exact hroom
      obtain ⟨hst, hk⟩ := he.keeps stamps_stampAttrs hi.stamped ((hp n hn).fresh hi.count hroom hknown hids)
      refine ⟨hst, he.latestAreCins stamps_stampAttrs hi.stamped.sane hi.latest, he.riCount_lt hi.count, fun ri hri => ?_⟩
      have hchosen : (Primitive.write a req).chosen w c.server = a.chosen w req c.server n := by
        show (c.server.aimed w.env.now req.target).elim [] _ = _
        rw [hn]
        rfl
      show ri ∈ c.chosen ++ (Primitive.write a req).chosen w c.server ∨ ¬ ToCome _ (_ + _) s₂.riCount ri
      rw [hchosen, hdrawn, hcount]
      exact Server.Write.known_of_keeps hi.count hroom hknown hk hids hri
  | delete req =>
    obtain ⟨⟨s₂, r⟩, h₂, rfl⟩ := Option.map_eq_some_iff.mp hrun
    exact hquiet (Server.edits_requestDelete stamps_stampAttrs hi.stamped.sane h₂)
  | retrieve req =>
    cases hrun
    exact hquiet (Server.edits_findRtnode stamps_stampAttrs hi.stamped.sane req.target)

theorem TimedStart.issued {c : Timed} (h : TimedStart c) : c.Issued := by
  obtain ⟨env, s, hb, rfl⟩ := h
  obtain ⟨hst, hla⟩ := stamped_boot stamps_stampAttrs ⟨env, hb⟩
  cases hb
  refine ⟨hst, hla, Nat.lt_of_lt_of_le Nat.one_lt_two (by omega), fun ri hri => .inr ?_⟩
  have hri : ri = cseBaseRi ∨ ri = riPrefix .acp ++ env.now ++ pad4 0 := by
    rcases hri with ⟨m, hm, hmri⟩ | ⟨q, hq, hqri⟩
    · rcases List.mem_cons.mp hm with rfl | hm
      · cases hmri
        exact .inl rfl
      · rw [List.mem_singleton.mp hm] at hmri
        cases hmri
        exact .inr rfl
    · rcases List.mem_cons.mp hq with rfl | hq
      · have hown : (initCse env).str .ri = some ri :=
          str_of_column ((Db.get_stored _ (by decide)).symm.trans (Obj.get_of_str hqri))
        cases hown
        exact .inl rfl
      · rw [List.mem_singleton.mp hq] at hqri
        have hown : (initAcp env 0).1.str .ri = some ri :=
          str_of_column ((Db.get_stored _ (by decide)).symm.trans (Obj.get_of_str hqri))
        cases hown
        exact .inr rfl
  rcases hri with rfl | rfl
  · -- the name of the CSE does not end in digits
    rintro ⟨p, t, k, heq, hk, -⟩
    obtain ⟨-, hdigits⟩ : "tin".toList = p ++ t ∧ "yiot".toList = pad4 k := List.append_inj' heq rfl
    have hfirst : 'y' = Nat.digitChar (k / 1000 % 10) := (List.cons.inj hdigits).1
    have hnone : ∀ x < 10, 'y' ≠ Nat.digitChar x := by decide
    exact hnone _ (Nat.mod_lt _ (by omega)) hfirst
  · exact @not_toCome_drawn env.now 0 0 1 0 _ (by decide) (by decide)

/-! ## One identifier, one resource -/

/-- No two rows go by one identifier, nor do two nodes other than cached instances, and a node and a row of one identifier
show the same resource. -/
structure Server.IdentifiersApart (s : Server) : Prop where
  rows : (s.db.filterMap Row.ri).Nodup
  nodes : ∀ n ∈ s.tree.nodes, ∀ m ∈ s.tree.nodes, n.ty ≠ .cin → m.ty ≠ .cin → n.ri = m.ri → n.ri.isSome → n = m
  both : ∀ n ∈ s.tree.nodes, ∀ q ∈ s.db, ∀ ri, n.ri = some ri → q.ri = some ri → InStepOn stampAttrs n.obj q.obj

/-- Identifiers stay apart in every run in which what a client chooses is new, and is not assigned while its resource is
there. -/
theorem identifiers_apart (c : Timed) (h : Reach TimedStart ProperStep c) : c.server.IdentifiersApart := by
  have hi := h.inv (fun c hc => TimedStart.issued hc) fun c c' hi hst => hst.issued hi
  refine ⟨hi.stamped.rows, fun n hn m hm hnty hmty hri hsome => ?_, hi.stamped.inStep⟩
  exact hi.stamped.sane.ids.eq hn hm (hi.stamped.nodes n hn m hm hnty hmty hri hsome)

/-- The state after the start at this time. -/
def startTimed (env : Env) : Option Timed := (boot env).map fun s => ⟨s, env.now, 1, []⟩

/-- An AE registers under this name, with this originator. -/
def registerAe (fr rn : String) : Primitive :=
  .write (.create .ae)
    { adminReq .create "TinyIoT" .ae [(.rn, .str rn.toList), (.api, .str "Napp".toList), (.rr, .bool true)] with
      fr := fr.toList }

/-- A request at the time of the start, while there is room for more. -/
def nextAtStart (c : Timed) (p : Primitive) : Option Timed :=
  (c.next quietOutside p).filter fun c' => c.stamp = firstDay.now && c'.used < 10000

/-- Such a request, where it brings identifiers as it should. -/
def properAtStart (c : Timed) (p : Primitive) : Option Timed :=
  if p.Proper quietOutside c.server c.chosen then nextAtStart c p else none

theorem timedStart_startTimed {env : Env} {c : Timed} (h : startTimed env = some c) : TimedStart c := by
  obtain ⟨s, hs, rfl⟩ := Option.map_eq_some_iff.mp h
  exact ⟨env, s, hs, rfl⟩

theorem nextAtStart_some {c c' : Timed} {p : Primitive} (h : nextAtStart c p = some c') :
    quietOutside.env.now.length = c.stamp.length ∧ strLt quietOutside.env.now c.stamp = false ∧
      c.next quietOutside p = some c' ∧ c'.used < 10000 := by
  obtain ⟨hnext, hcond⟩ := Option.filter_eq_some_iff.mp h
  rw [Bool.and_eq_true, decide_eq_true_eq, decide_eq_true_eq] at hcond
  rw [hcond.1]
  exact ⟨rfl, strLt_self _, hnext, hcond.2⟩

theorem identifiers_apart_registered : ∃ c, Reach TimedStart ProperStep c ∧ 4 ≤ c.server.db.length ∧
    c.server.IdentifiersApart := by
  have hrun : ((startTimed firstDay).bind fun c =>
      [registerAe "Cmeter" "a", registerAe "C" "b"].foldlM properAtStart c).any (fun c => 4 ≤ c.server.db.length) =
        true := by decide +kernel
  obtain ⟨c, hc, hrows⟩ := (Option.any_eq_true _ _).mp hrun
  obtain ⟨c₀, hb, hc⟩ := Option.bind_eq_some_iff.mp hc
  simp only [List.foldlM_cons, List.foldlM_nil, Option.bind_eq_bind, Option.bind_eq_some_iff, Option.pure_def,
    Option.some.injEq] at hc
  obtain ⟨c₁, h₁, c₂, h₂, rfl⟩ := hc
  have hproper : ∀ {c c' : Timed} {fr rn : String}, properAtStart c (registerAe fr rn) = some c' → ProperStep c c' := by
    intro c c' fr rn h
    unfold properAtStart at h
    split at h
    · rename_i hp
      obtain ⟨hlen, hlater, hnext, hroom⟩ := nextAtStart_some h
      exact ⟨quietOutside, _, hp, fun _ _ => trivial, hlen, hlater, hnext, hroom⟩
    · cases h
  have hreach := ((Reach.start (timedStart_startTimed hb)).next (hproper h₁)).next (hproper h₂)
  exact ⟨c₂, hreach, of_decide_eq_true hrows, identifiers_apart c₂ hreach⟩

/-- An AE may register under the identifier that the next one is assigned. -/
theorem identifiers_meet : ¬ ∀ c, Reach TimedStart TimedStep c → c.server.IdentifiersApart := by
  intro hall
  have hrun : ((startTimed firstDay).bind fun c =>
      [registerAe "CAE20240101T0000000002" "a", registerAe "C" "b"].foldlM nextAtStart c).any
        (fun c => decide ¬ (c.server.db.filterMap Row.ri).Nodup) = true := by decide +kernel
  obtain ⟨c, hc, hrows⟩ := (Option.any_eq_true _ _).mp hrun
  obtain ⟨c₀, hb, hc⟩ := Option.bind_eq_some_iff.mp hc
  have hreach : Reach TimedStart TimedStep c := by
    refine Reach.of_foldlM (fun c p c' h => ?_) _ (.start (timedStart_startTimed hb)) hc
    exact ⟨quietOutside, p, nextAtStart_some h⟩
  exact of_decide_eq_true hrows (hall c hreach).rows

end TinyIoT
