/-
Access control contexts (`check_acco`): a rule applies to the client addresses its contexts list. What an entry
means is said in bits of the network order, what the code compares in bits of the integer that holds the address:
the two agree on masks of whole octets, and on others where the octets after these agree in their first bits just
when they do in their last.
-/
import TinyIoT.Resource.AccessControl
import TinyIoT.Lib.Decimal

namespace TinyIoT

/-! ## Addresses as text -/

/-- The numbers of an address as text. -/
def joinDots : List CStr → CStr
  | [] => []
  | [t] => t
  | t :: ts => t ++ '.' :: joinDots ts

theorem cutDots_ne_nil (s : CStr) : cutDots s ≠ [] := by
  cases s with
  | nil => simp [cutDots]
  | cons c s =>
    unfold cutDots
    split
    · simp
    · split <;> simp

theorem joinDots_cutDots (s : CStr) : joinDots (cutDots s) = s := by
  induction s with
  | nil => rfl
  | cons c s ih =>
    obtain ⟨t, ts, hts⟩ := List.exists_cons_of_ne_nil (cutDots_ne_nil s)
    unfold cutDots
    rw [hts] at ih ⊢
    split
    · rename_i hc
      rw [joinDots, ih, hc]
      · rfl
      · simp
    · dsimp only
      cases ts with
      | nil => exact congrArg (c :: ·) ih
      | cons u ts => exact congrArg (c :: ·) ih

/-- An octet is written in one way only. -/
theorem octet_some {s : CStr} {n : Nat} (h : octet s = some n) : s = Decimal.ofNat n ∧ n ≤ 255 := by
  unfold octet at h
  dsimp only at h
  split at h
  · rename_i hok
    obtain ⟨hne, hd, hle, h0⟩ := hok
    cases h
    exact ⟨(Decimal.ofNat_value hne hd h0).symm, hle⟩
  · cases h

theorem inetPton_some {s : CStr} {x : BitVec 32} (h : inetPton s = some x) : ∃ a b c d : Nat,
    cutDots s = [Decimal.ofNat a, Decimal.ofNat b, Decimal.ofNat c, Decimal.ofNat d] ∧
      a ≤ 255 ∧ b ≤ 255 ∧ c ≤ 255 ∧ d ≤ 255 ∧
      x = BitVec.ofNat 32 (a + 256 * b + 65536 * c + 16777216 * d) := by
  unfold inetPton at h
  split at h
  · rename_i a b c d hcut
    cases h
    obtain ⟨s₁, l₁, hl, h₁, hcut⟩ := List.map_eq_cons_iff.mp hcut
    obtain ⟨s₂, l₂, rfl, h₂, hcut⟩ := List.map_eq_cons_iff.mp hcut
    obtain ⟨s₃, l₃, rfl, h₃, hcut⟩ := List.map_eq_cons_iff.mp hcut
    obtain ⟨s₄, l₄, rfl, h₄, hcut⟩ := List.map_eq_cons_iff.mp hcut
    rw [List.map_eq_nil_iff] at hcut
    subst hcut
    obtain ⟨rfl, ha⟩ := octet_some h₁
    obtain ⟨rfl, hb⟩ := octet_some h₂
    obtain ⟨rfl, hc⟩ := octet_some h₃
    obtain ⟨rfl, hd⟩ := octet_some h₄
    exact ⟨a, b, c, d, hl, ha, hb, hc, hd, rfl⟩
  · cases h

/-- An address is written in one way only. -/
theorem inetPton_inj {s t : CStr} {x : BitVec 32} (hs : inetPton s = some x) (ht : inetPton t = some x) : s = t := by
  obtain ⟨a, b, c, d, hcut, ha, hb, hc, hd, rfl⟩ := inetPton_some hs
  obtain ⟨a', b', c', d', hcut', ha', hb', hc', hd', hx⟩ := inetPton_some ht
  have hnum := congrArg BitVec.toNat hx
  rw [BitVec.toNat_ofNat, BitVec.toNat_ofNat, Nat.mod_eq_of_lt (by omega), Nat.mod_eq_of_lt (by omega)] at hnum
  obtain rfl : a = a' := by omega
  obtain rfl : b = b' := by omega
  obtain rfl : c = c' := by omega
  obtain rfl : d = d' := by omega
  rw [← joinDots_cutDots s, ← joinDots_cutDots t, hcut, hcut']

/-! ## Masks -/

/-- The place in `s_addr` of a bit of the network order: octet after octet, each from its highest bit on. -/
def netBit (i : Nat) : Nat := 8 * (i / 8) + (7 - i % 8)

/-- Two addresses agree in their first bits. -/
def SamePrefix (n : Nat) (a b : BitVec 32) : Prop := ∀ i < n, a.getLsbD (netBit i) = b.getLsbD (netBit i)

/-- Two integers agree in their lowest bits. -/
def SameLow (n : Nat) (a b : BitVec 32) : Prop := ∀ i < n, a.getLsbD i = b.getLsbD i

instance (n : Nat) (a b : BitVec 32) : Decidable (SamePrefix n a b) := inferInstanceAs (Decidable (∀ i < n, _))

instance (n : Nat) (a b : BitVec 32) : Decidable (SameLow n a b) := inferInstanceAs (Decidable (∀ i < n, _))

/-- The bits that the mask of `check_acco` leaves. -/
def lowBits (n : Int) : Nat := (max 1 (min n 32)).toNat

theorem getLsbD_accoMask (n : Int) (i : Nat) : (accoMask n).getLsbD i = decide (i < lowBits n) := by
  unfold accoMask lowBits
  rw [BitVec.getLsbD_ushiftRight, BitVec.getLsbD_allOnes, decide_eq_decide]
  omega

theorem and_accoMask_iff (a b : BitVec 32) (n : Int) : a &&& accoMask n = b &&& accoMask n ↔ SameLow (lowBits n) a b := by
  constructor
  · intro h i hi
    have hbit := congrArg (BitVec.getLsbD · i) h
    simp only [BitVec.getLsbD_and, getLsbD_accoMask, hi, decide_true, Bool.and_true] at hbit
    exact hbit
  · intro h
    apply BitVec.eq_of_getLsbD_eq
    intro i hi
    rw [BitVec.getLsbD_and, BitVec.getLsbD_and, getLsbD_accoMask]
    by_cases hlow : i < lowBits n
    · rw [h i hlow]
    · rw [decide_eq_false hlow, Bool.and_false, Bool.and_false]

/-- An octet of an address, counted from the left. -/
def octetOf (k : Nat) (a : BitVec 32) : BitVec 8 := a.extractLsb' (8 * k) 8

theorem octetOf_eq_iff (k : Nat) (a b : BitVec 32) :
    octetOf k a = octetOf k b ↔ ∀ i < 8, a.getLsbD (8 * k + i) = b.getLsbD (8 * k + i) := by
  unfold octetOf
  constructor
  · intro h i hi
    have hbit := congrArg (BitVec.getLsbD · i) h
    simpa only [BitVec.getLsbD_extractLsb', hi, decide_true, Bool.true_and] using hbit
  · intro h
    apply BitVec.eq_of_getLsbD_eq
    intro i hi
    rw [BitVec.getLsbD_extractLsb', BitVec.getLsbD_extractLsb', h i hi]

/-- The first `r` bits of an octet. -/
theorem octetOf_high_iff (k : Nat) {r : Nat} (hr : r ≤ 8) (a b : BitVec 32) :
    octetOf k a >>> (8 - r) = octetOf k b >>> (8 - r) ↔
      ∀ i < r, a.getLsbD (8 * k + (7 - i)) = b.getLsbD (8 * k + (7 - i)) := by
  unfold octetOf
  constructor
  · intro h i hi
    have hbit := congrArg (BitVec.getLsbD · (r - 1 - i)) h
    have hpos : 8 - r + (r - 1 - i) = 7 - i := by omega
    have hlt : 7 - i < 8 := by omega
    simpa only [BitVec.getLsbD_ushiftRight, BitVec.getLsbD_extractLsb', hpos, hlt, decide_true, Bool.true_and] using hbit
  · intro h
    apply BitVec.eq_of_getLsbD_eq
    intro i _
    rw [BitVec.getLsbD_ushiftRight, BitVec.getLsbD_ushiftRight, BitVec.getLsbD_extractLsb', BitVec.getLsbD_extractLsb']
    by_cases hi : i < r
    · have := h (r - 1 - i) (by omega)
      rw [show 7 - (r - 1 - i) = 8 - r + i by omega] at this
      rw [this]
    · rw [decide_eq_false (by omega : ¬ 8 - r + i < 8), Bool.false_and, Bool.false_and]

/-- The last `r` bits of an octet. -/
theorem octetOf_low_iff (k : Nat) {r : Nat} (hr : r ≤ 8) (a b : BitVec 32) :
    octetOf k a <<< (8 - r) = octetOf k b <<< (8 - r) ↔ ∀ i < r, a.getLsbD (8 * k + i) = b.getLsbD (8 * k + i) := by
  unfold octetOf
  constructor
  · intro h i hi
    have hbit := congrArg (BitVec.getLsbD · (8 - r + i)) h
    have hlt : 8 - r + i < 8 := by omega
    have hge : ¬ 8 - r + i < 8 - r := by omega
    have hpos : 8 - r + i - (8 - r) = i := by omega
    have hi8 : i < 8 := by omega
    simpa only [BitVec.getLsbD_shiftLeft, BitVec.getLsbD_extractLsb', hlt, hge, hpos, hi8, decide_true, decide_false,
      Bool.not_false, Bool.true_and] using hbit
  · intro h
    apply BitVec.eq_of_getLsbD_eq
    intro i hi
    rw [BitVec.getLsbD_shiftLeft, BitVec.getLsbD_shiftLeft, BitVec.getLsbD_extractLsb', BitVec.getLsbD_extractLsb']
    by_cases hlow : i < 8 - r
    · simp [hlow]
    · rw [h (i - (8 - r)) (by omega)]

/-- The first `8 q + r` bits of the network order are `q` octets and the first `r` bits of the next. -/
theorem samePrefix_octets (q : Nat) {r : Nat} (hr : r ≤ 8) (a b : BitVec 32) : SamePrefix (8 * q + r) a b ↔
    (∀ k < q, octetOf k a = octetOf k b) ∧ octetOf q a >>> (8 - r) = octetOf q b >>> (8 - r) := by
  simp only [octetOf_eq_iff]
  rw [octetOf_high_iff q hr]
  unfold SamePrefix
  constructor
  · intro h
    refine ⟨fun k hk i hi => ?_, fun i hi => ?_⟩
    · have := h (8 * k + (7 - i)) (by omega)
      rwa [show netBit (8 * k + (7 - i)) = 8 * k + i by unfold netBit; omega] at this
    · have := h (8 * q + i) (by omega)
      rwa [show netBit (8 * q + i) = 8 * q + (7 - i) by unfold netBit; omega] at this
  · rintro ⟨hoct, hrest⟩ i hi
    by_cases hq : i < 8 * q
    · have := hoct (i / 8) (by omega) (7 - i % 8) (by omega)
      rwa [show 8 * (i / 8) + (7 - i % 8) = netBit i from rfl] at this
    · have := hrest (i - 8 * q) (by omega)
      rwa [show 8 * q + (7 - (i - 8 * q)) = netBit i by unfold netBit; omega] at this

/-- The lowest `8 q + r` bits of the integer are `q` octets and the last `r` bits of the next. -/
theorem sameLow_octets (q : Nat) {r : Nat} (hr : r ≤ 8) (a b : BitVec 32) : SameLow (8 * q + r) a b ↔
    (∀ k < q, octetOf k a = octetOf k b) ∧ octetOf q a <<< (8 - r) = octetOf q b <<< (8 - r) := by
  simp only [octetOf_eq_iff]
  rw [octetOf_low_iff q hr]
  unfold SameLow
  constructor
  · intro h
    exact ⟨fun k hk i hi => h (8 * k + i) (by omega), fun i hi => h (8 * q + i) (by omega)⟩
  · rintro ⟨hoct, hrest⟩ i hi
    by_cases hq : i < 8 * q
    · have := hoct (i / 8) (by omega) (i % 8) (by omega)
      rwa [show 8 * (i / 8) + i % 8 = i by omega] at this
    · have := hrest (i - 8 * q) (by omega)
      rwa [show 8 * q + (i - 8 * q) = i by omega] at this

/-- A mask of `n` bits by which two addresses agree as the claim of an entry says just when they agree in the lowest
bits: one of the whole octets differs, or the next octets agree in their first bits just when they do in their last
ones. A mask below one bit is read as one, a mask above 32 as 32. -/
def MaskFits (n : Int) (a b : BitVec 32) : Prop :=
  if n < 1 then (n = 0 ↔ octetOf 0 a <<< 7 = octetOf 0 b <<< 7)
  else if 32 < n then a ≠ b
  else
    let q := n.toNat / 8
    let r := n.toNat % 8
    (∃ k < q, octetOf k a ≠ octetOf k b) ∨
      (octetOf q a >>> (8 - r) = octetOf q b >>> (8 - r) ↔ octetOf q a <<< (8 - r) = octetOf q b <<< (8 - r))

theorem maskFits_iff (n : Int) (a b : BitVec 32) :
    MaskFits n a b ↔ (SameLow (lowBits n) a b ↔ 0 ≤ n ∧ n ≤ 32 ∧ SamePrefix n.toNat a b) := by
  unfold MaskFits lowBits
  by_cases hlow : n < 1
  · have hone := sameLow_octets 0 (r := 1) (by omega) a b
    rw [if_pos hlow, show (max 1 (min n 32)).toNat = 8 * 0 + 1 by omega, hone]
    simp only [Nat.not_lt_zero, false_imp_iff, implies_true, true_and]
    have hzero : n = 0 ↔ 0 ≤ n ∧ n ≤ 32 ∧ SamePrefix n.toNat a b := by
      constructor
      · rintro rfl
        exact ⟨le_refl 0, by omega, fun i hi => absurd hi (Nat.not_lt_zero i)⟩
      · rintro ⟨hn, -⟩
        omega
    rw [← hzero]
    exact Iff.comm
  rw [if_neg hlow]
  by_cases hhigh : 32 < n
  · have hall : SameLow 32 a b ↔ a = b :=
      ⟨fun h => BitVec.eq_of_getLsbD_eq fun i hi => h i hi, fun h i _ => by rw [h]⟩
    rw [if_pos hhigh, show (max 1 (min n 32)).toNat = 32 by omega, hall]
    have hno : ¬ (0 ≤ n ∧ n ≤ 32 ∧ SamePrefix n.toNat a b) := by omega
    simp [hno]
  · rw [if_neg hhigh]
    have hr : n.toNat % 8 ≤ 8 := by omega
    have hn : n.toNat = 8 * (n.toNat / 8) + n.toNat % 8 := by omega
    have hp := samePrefix_octets (n.toNat / 8) hr a b
    have hl := sameLow_octets (n.toNat / 8) hr a b
    rw [← hn] at hp hl
    rw [show (max 1 (min n 32)).toNat = n.toNat by omega, hp, hl]
    have hrange : 0 ≤ n ∧ n ≤ 32 := by omega
    simp only [hrange, true_and]
    by_cases hoct : ∀ k < n.toNat / 8, octetOf k a = octetOf k b
    · have hno : ¬ ∃ k < n.toNat / 8, octetOf k a ≠ octetOf k b := by
        rintro ⟨k, hk, hne⟩
        exact hne (hoct k hk)
      rw [or_iff_right hno, and_iff_right hoct, and_iff_right hoct]
      exact Iff.comm
    · have hyes : ∃ k < n.toNat / 8, octetOf k a ≠ octetOf k b := by simpa using hoct
      simp only [hyes, hoct, true_or, false_and]

/-! ## Entries -/

/-- What an entry says: the client has this address, or one that agrees with it in the first bits. -/
def NamesClient (entry ip : CStr) : Prop :=
  match cutSlash entry with
  | none => inetPton entry = inetPton ip
  | some (addr, bits) => 0 ≤ atoi bits ∧ atoi bits ≤ 32 ∧
      ∃ a ∈ inetPton addr, ∃ b ∈ inetPton ip, SamePrefix (atoi bits).toNat a b

/-- The entry has no mask, or one that fits its address and that of the client. -/
def EntryFits (entry ip : CStr) : Prop :=
  ∀ p ∈ cutSlash entry, ∀ a ∈ inetPton p.1, ∀ b ∈ inetPton ip, MaskFits (atoi p.2) a b

/-- An entry is compared as it says when its mask fits, and only then. -/
theorem ipMatches_iff {entry ip : CStr} (hip : (inetPton ip).isSome = true) :
    (ipMatches entry ip = true ↔ NamesClient entry ip) ↔ EntryFits entry ip := by
  obtain ⟨b, hb⟩ := Option.isSome_iff_exists.mp hip
  unfold ipMatches NamesClient EntryFits
  cases hcut : cutSlash entry with
  | none =>
    have hsame : entry = ip ↔ inetPton entry = inetPton ip :=
      ⟨fun h => by rw [h], fun h => inetPton_inj (h.trans hb) hb⟩
    simp [hsame]
  | some p =>
    obtain ⟨addr, bits⟩ := p
    dsimp only
    rw [hb]
    cases ha : inetPton addr with
    | none => simp [ha]
    | some a =>
      simp only [decide_eq_true_eq, and_accoMask_iff, Option.mem_def, Option.some.injEq, exists_eq_left', forall_eq', ha]
      exact (maskFits_iff (atoi bits) a b).symm

/-! ## Contexts -/

/-- The entries of one context. -/
def contextEntries (context : Json) : List Json := (((context.member .acip).bind (Json.member · .ipv4)).map Json.items).getD []

/-- The contexts a rule lists: the elements of a list, or the one that stands for itself. -/
def contexts : Json → List Json
  | .arr l => l
  | j => [j]

/-- The addresses the contexts list. -/
def listedEntries (acco : Json) : List CStr := ((contexts acco).flatMap contextEntries).filterMap Json.valuestring

/-- The addresses `check_acco` comes to. -/
def readEntries (acco : Json) : List CStr := (acco.items.flatMap contextEntries).filterMap Json.valuestring

theorem anyString_of_texts {p : CStr → Bool} {l : List Json} (h : ∀ j ∈ l, j.isString = true) :
    anyString p l = some ((l.filterMap Json.valuestring).any p) := by
  induction l with
  | nil => rfl
  | cons j l ih =>
    have hj := h j List.mem_cons_self
    cases j with
    | str s =>
      rw [List.filterMap_cons_some (show (Json.str s).valuestring = some s from rfl), List.any_cons]
      simp only [anyString, Json.valuestring, Option.bind_eq_bind, Option.bind_some,
        ih fun j hj => h j (List.mem_cons_of_mem _ hj)]
      cases p s with
      | true => rfl
      | false => rw [if_neg Bool.false_ne_true, Bool.false_or]
    | _ => cases hj

/-- `check_acco` on a list of entries that are texts: nothing is listed, or an entry it comes to matches. -/
theorem checkAcco_iff {acco : Json} {ip : CStr} (htext : ∀ j ∈ acco.items.flatMap contextEntries, j.isString = true) :
    checkAcco (some acco) (some ip) = some true ↔ acco.items = [] ∨ ∃ e ∈ readEntries acco, ipMatches e ip = true := by
  unfold checkAcco
  dsimp only
  cases hitems : acco.items with
  | nil => simp
  | cons c l =>
    rw [← hitems, if_neg (by simp [hitems])]
    have heq : (acco.items.flatMap fun c => (((c.member .acip).bind (Json.member · .ipv4)).map Json.items).getD []) =
        acco.items.flatMap contextEntries := rfl
    rw [heq, anyString_of_texts htext, Option.some.injEq, List.any_eq_true]
    unfold readEntries
    simp [hitems]

/-! ## When a rule applies to the clients it lists -/

/-- The client is one a context lists. -/
def ListsClient (acco : Json) (ip : CStr) : Prop := ∃ e ∈ listedEntries acco, NamesClient e ip

/-- The contexts stand in a list that is not empty; and an entry that fits names the client, or all entries fit, or of
those that do not fit one names the client and another does not. -/
def PlainContexts (acco : Json) (ip : CStr) : Prop :=
  acco.items ≠ [] ∧
    ((∃ e ∈ listedEntries acco, EntryFits e ip ∧ NamesClient e ip) ∨
      ((∃ e ∈ listedEntries acco, ¬ EntryFits e ip ∧ NamesClient e ip) ↔
        ∃ e ∈ listedEntries acco, ¬ EntryFits e ip ∧ ¬ NamesClient e ip))

/-- A single context in the place of the list names the client just when an entry nested one level deeper, which is
where `check_acco` looks, either fits and names it or does neither. -/
def BareContext (acco : Json) (ip : CStr) : Prop :=
  acco.items ≠ [] ∧ (ListsClient acco ip ↔ ∃ e ∈ readEntries acco, (EntryFits e ip ↔ NamesClient e ip))

/-- A rule for everybody that the context of these addresses limits. -/
def contextRule (entries : List String) : Json :=
  .obj [(.acor, .arr [.str "all".toList]), (.acop, .int 63), (.acco, .arr [.obj [(.acip,
    .obj [(.ipv4, .arr (entries.map fun e => .str e.toList))])]])]

end TinyIoT
