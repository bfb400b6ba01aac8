/-
Points of access (`parsePoa`): a scheme, a host, and perhaps a port and a path. The host is cut off at the first ':'
behind the scheme and the path is taken from the first '/', each by a search of its own.
-/
import TinyIoT.Lib.Cut
import TinyIoT.Access.Policy

namespace TinyIoT

/-- `Protocol`. -/
inductive Protocol where
  | http | mqtt | coap | coaps | wss | ws
  deriving DecidableEq, Repr

namespace Protocol

/-- What a point of access of the protocol begins with. -/
def scheme : Protocol → CStr
  | http => "http://".toList
  | mqtt => "mqtt://".toList
  | coap => "coap://".toList
  | coaps => "coaps://".toList
  | wss => "wss://".toList
  | ws => "ws://".toList

/-- The protocols in the order `parsePoa` tries them. -/
def all : List Protocol := [http, mqtt, coap, coaps, wss, ws]

/-- Where `parsePoa` looks for the host. -/
def offset : Protocol → Nat
  | coaps => 8
  | ws => 5
  | _ => 7

/-- The port that stands for none; the WebSocket protocols have no such rule. -/
def defaultPort : Protocol → Int
  | http => 80
  | mqtt => 1883
  | coap => 5683
  | coaps => 5684
  | wss | ws => 0

theorem eq_of_prefix {q prot : Protocol} {s : CStr} (h : q.scheme <+: prot.scheme ++ s) : q = prot := by
  have hapart : ∀ q prot : Protocol, q.scheme <+: prot.scheme ∨ prot.scheme <+: q.scheme → q = prot := by
    intro q prot
    cases q <;> cases prot <;> decide
  exact hapart q prot (List.prefix_or_prefix_of_prefix h (List.prefix_append _ _))

/-- No scheme begins with another, so that the order they are tried in does not matter. -/
theorem find_scheme {f : Protocol → Bool} {q : Protocol} (h : ∀ prot, f prot = true ↔ prot = q) : all.find? f = some q := by
  cases hf : all.find? f with
  | none =>
    have hq : q ∈ all := by cases q <;> decide
    exact absurd ((h q).mpr rfl) (List.find?_eq_none.mp hf q hq)
  | some prot => rw [(h prot).mp (List.find?_some hf)]

end Protocol

/-- What `parsePoa` gives. -/
structure Poa where
  prot : Protocol
  host : CStr
  port : Int
  path : CStr
  deriving DecidableEq, Repr

/-- The three searches of `parsePoa`, with the variable `port` as it is; no result where `atoi` has none. The tests
`port == 0` after them compare a pointer, which is not NULL. -/
def readRest (prot : Protocol) (rest : CStr) (port : Int) : Option Poa :=
  let read := ((Cut.from? ':' rest).map fun colon => atoi colon.tail).getD port
  if read < intMin ∨ intMax < read then none
  else some ⟨prot, Cut.before ':' rest, read, (Cut.from? '/' rest).getD ['/']⟩

/-- `parsePoa`: no result where it reads past the end of the text, and the inner `none` where it returns -1. -/
def parsePoa (s : CStr) (port : Int) : Option (Option Poa) :=
  match Protocol.all.find? fun prot => prot.scheme.isPrefixOf s with
  | none => some none
  | some prot => if s.length < prot.offset then none else (readRest prot (s.drop prot.offset) port).map some

/-! ## What a point of access says -/

/-- A decimal number. -/
structure PortText where
  digits : CStr
  ne_nil : digits ≠ []
  decimal : ∀ c ∈ digits, c.isDigit = true

/-- Its value. -/
def PortText.value (p : PortText) : Nat := p.digits.foldl (fun n c => 10 * n + (c.toNat - '0'.toNat)) 0

/-- The parts of a point of access. -/
structure PointOfAccess where
  prot : Protocol
  host : CStr
  port : Option PortText
  path : Option CStr
  noColon : ':' ∉ host
  noSlash : '/' ∉ host
  rooted : ∀ t ∈ path, ∃ u, t = '/' :: u

namespace PointOfAccess

variable (p : PointOfAccess)

def portText : CStr := p.port.elim [] fun port => ':' :: port.digits

def rest : CStr := p.host ++ (p.portText ++ p.path.getD [])

/-- The text of a point of access. -/
def text : CStr := p.prot.scheme ++ p.rest

/-- What it says. -/
def target : Poa := ⟨p.prot, p.host, p.port.elim p.prot.defaultPort fun port => port.value, p.path.getD ['/']⟩

/-- A port of another protocol than `wss` that an `int` can hold; host alone for `ws`; and for `wss` the path '/' alone. -/
def Served : Prop :=
  (p.prot ≠ .wss ∧ ∃ port ∈ p.port, (port.value : Int) ≤ intMax) ∨
  (p.prot = .ws ∧ p.port = none ∧ p.path = none) ∨
  (p.prot = .wss ∧ p.host = [] ∧ p.port = none ∧ p.path = some ['/'])

variable {p}

theorem find_text (p : PointOfAccess) : (Protocol.all.find? fun prot => prot.scheme.isPrefixOf p.text) = some p.prot := by
  rw [Protocol.find_scheme (q := p.prot)]
  intro prot
  rw [List.isPrefixOf_iff_prefix]
  exact ⟨Protocol.eq_of_prefix, fun h => h ▸ List.prefix_append _ _⟩

theorem not_mem_digits (port : PortText) {c : Char} (h : c.isDigit = false) : c ∉ port.digits := fun hc => by
  rw [port.decimal c hc] at h
  cases h

theorem slash_not_mem_portText : '/' ∉ p.portText := by
  unfold portText
  cases p.port with
  | none => exact List.not_mem_nil
  | some port => exact mt List.mem_cons.mp (not_or.mpr ⟨by decide, not_mem_digits port rfl⟩)

theorem from?_path : Cut.from? '/' (p.path.getD []) = p.path := by
  cases hp : p.path with
  | none => rfl
  | some t =>
    obtain ⟨u, rfl⟩ := p.rooted t hp
    exact Cut.from?_cons_self '/' u

/-- The path is found behind host and port. -/
theorem from?_rest (p : PointOfAccess) : Cut.from? '/' p.rest = p.path := by
  unfold rest
  rw [Cut.from?_append p.noSlash, Cut.from?_append slash_not_mem_portText, from?_path]

/-! ## What `parsePoa` makes of it -/

theorem parsePoa_text_of_ne (h : p.prot ≠ .wss) : parsePoa p.text 0 = (readRest p.prot p.rest 0).map some := by
  have hoff : p.prot.offset = p.prot.scheme.length := by
    revert h
    cases p.prot <;> decide
  unfold parsePoa
  rw [find_text p]
  dsimp only
  rw [if_neg (by rw [hoff, text, List.length_append]; omega), hoff, text, List.drop_left]

/-- For `wss` the host is looked for one character late. -/
theorem parsePoa_text_wss (h : p.prot = .wss) :
    parsePoa p.text 0 = if p.rest = [] then none else (readRest .wss p.rest.tail 0).map some := by
  unfold parsePoa
  rw [find_text p, h]
  dsimp only
  unfold text
  rw [h]
  cases hr : p.rest with
  | nil => rfl
  | cons c rest =>
    rw [if_neg, if_neg (List.cons_ne_nil _ _)]
    · rfl
    · rw [List.length_append, List.length_cons]
      show ¬6 + (rest.length + 1) < 7
      omega

theorem readRest_iff {prot : Protocol} {rest : CStr} {port : Int} {t : Poa} : readRest prot rest port = some t ↔
    t = ⟨prot, Cut.before ':' rest, ((Cut.from? ':' rest).map fun colon => atoi colon.tail).getD port,
      (Cut.from? '/' rest).getD ['/']⟩ ∧ intMin ≤ t.port ∧ t.port ≤ intMax := by
  unfold readRest
  dsimp only
  split
  · rename_i hout
    refine iff_of_false (by simp) ?_
    rintro ⟨rfl, h₁, h₂⟩
    dsimp only at h₁ h₂
    omega
  · rename_i hin
    rw [Option.some.injEq]
    constructor
    · rintro rfl
      dsimp only
      exact ⟨rfl, by omega, by omega⟩
    · rintro ⟨h, -⟩
      exact h.symm

/-- `atoi` reads the port up to the path. -/
theorem atoi_port (port : PortText) {t : CStr} (ht : ∀ c ∈ t.head?, c.isDigit = false) :
    atoi (port.digits ++ t) = port.value := by
  have htake : (port.digits ++ t).takeWhile Char.isDigit = port.digits := by
    rw [List.takeWhile_append_of_pos port.decimal]
    cases t with
    | nil => rw [List.takeWhile_nil, List.append_nil]
    | cons c t => rw [List.takeWhile_cons_of_neg (by simp [ht c rfl]), List.append_nil]
  obtain ⟨c, l, hd⟩ := List.exists_cons_of_ne_nil port.ne_nil
  have hc : c.isDigit = true := port.decimal c (by simp [hd])
  have hrange : '0'.val ≤ c.val := by
    have h := hc
    simp only [Char.isDigit, Bool.and_eq_true, decide_eq_true_eq] at h
    exact h.1
  have hsp : ¬(c = ' ' ∨ ('\t' ≤ c ∧ c ≤ '\r')) := by
    rintro (rfl | ⟨-, h⟩)
    · exact absurd hc (by decide)
    · exact absurd (UInt32.le_trans hrange h) (by decide)
  have hm : c ≠ '-' ∧ c ≠ '+' := by
    constructor <;> rintro rfl <;> exact absurd hc (by decide)
  unfold atoi PortText.value
  rw [hd, List.cons_append] at htake ⊢
  rw [List.dropWhile_cons_of_neg (by simpa using hsp)]
  dsimp only
  split
  · rename_i h
    exact absurd (List.cons.inj h).1 hm.1
  · rename_i h
    exact absurd (List.cons.inj h).1 hm.2
  · rw [htake]

theorem map_some_iff {x : Option Poa} {t : Poa} : x.map some = some (some t) ↔ x = some t := by
  cases x <;> simp

/-- Without a port the host goes on up to a ':' of the path. -/
theorem before_path_ne {t : CStr} (ht : t ∈ p.path) : Cut.before ':' (p.host ++ t) ≠ p.host := by
  obtain ⟨u, rfl⟩ := p.rooted t ht
  rw [Cut.before_append p.noColon, Cut.before_cons_ne (by decide)]
  intro h
  have := congrArg List.length h
  simp at this

theorem readRest_port {port : PortText} (hp : p.port = some port) :
    readRest p.prot p.rest 0 = some p.target ↔ (port.value : Int) ≤ intMax := by
  have hrest : p.rest = p.host ++ ':' :: (port.digits ++ p.path.getD []) := by
    unfold rest portText
    rw [hp]
    rfl
  have hread : atoi (port.digits ++ p.path.getD []) = port.value := by
    refine atoi_port port fun c hc => ?_
    cases ht : p.path with
    | none =>
      rw [ht] at hc
      cases hc
    | some t =>
      obtain ⟨u, rfl⟩ := p.rooted t ht
      rw [ht] at hc
      cases hc
      rfl
  have hfound : p.target = ⟨p.prot, Cut.before ':' p.rest, ((Cut.from? ':' p.rest).map fun colon => atoi colon.tail).getD 0,
      (Cut.from? '/' p.rest).getD ['/']⟩ := by
    rw [from?_rest, hrest, Cut.before_append_cons p.noColon, Cut.from?_append_cons p.noColon, Option.map_some,
      Option.getD_some, List.tail_cons, hread]
    unfold target
    rw [hp]
    rfl
  have hval : p.target.port = port.value := by
    unfold target
    rw [hp]
    rfl
  rw [readRest_iff, hval]
  unfold intMin
  constructor
  · exact fun h => h.2.2
  · exact fun h => ⟨hfound, by omega, h⟩

theorem readRest_noPort (hp : p.port = none) :
    readRest p.prot p.rest 0 = some p.target ↔ p.path = none ∧ p.prot.defaultPort = 0 := by
  have hrest : p.rest = p.host ++ p.path.getD [] := by
    unfold rest portText
    rw [hp]
    rfl
  rw [readRest_iff]
  cases ht : p.path with
  | some t =>
    refine iff_of_false ?_ (by simp)
    rintro ⟨h, -⟩
    have hhost := congrArg Poa.host h
    rw [hrest, ht] at hhost
    exact before_path_ne ht hhost.symm
  | none =>
    have hnone : Cut.from? '/' p.rest = none := (from?_rest p).trans ht
    rw [hnone, hrest, ht, Option.getD_none, List.append_nil, Cut.before_of_not_mem p.noColon,
      Cut.from?_of_not_mem p.noColon, target, hp, ht]
    constructor
    · rintro ⟨h, -⟩
      exact ⟨rfl, congrArg Poa.port h⟩
    · rintro ⟨-, h⟩
      refine ⟨by simp [h], ?_, ?_⟩ <;> simp [h, intMin, intMax]

/-- Read one character late the text is right for the path '/' alone. -/
theorem readRest_late (hw : p.prot = .wss) (hr : p.rest ≠ []) :
    readRest .wss p.rest.tail 0 = some p.target ↔ p.host = [] ∧ p.port = none ∧ p.path = some ['/'] := by
  rw [readRest_iff]
  constructor
  · rintro ⟨h, -⟩
    have hhost : p.host = Cut.before ':' p.rest.tail := congrArg Poa.host h
    have hpath : p.path.getD ['/'] = (Cut.from? '/' p.rest.tail).getD ['/'] := congrArg Poa.path h
    cases hh : p.host with
    | cons c l =>
      -- the host has lost its first character
      exfalso
      have hcolon : ':' ∉ l := fun hc => p.noColon (hh ▸ List.mem_cons_of_mem c hc)
      have htail : p.rest.tail = l ++ (p.portText ++ p.path.getD []) := by
        unfold rest
        rw [hh]
        rfl
      rw [htail, Cut.before_append hcolon, hh] at hhost
      cases hp : p.port with
      | some port =>
        unfold portText at hhost
        rw [hp] at hhost
        have := congrArg List.length hhost
        simp at this
      | none =>
        unfold portText at hhost
        rw [hp, Option.elim_none, List.nil_append] at hhost
        cases ht : p.path with
        | none =>
          rw [ht] at hhost
          have := congrArg List.length hhost
          simp at this
        | some t =>
          obtain ⟨u, rfl⟩ := p.rooted t ht
          rw [ht, Option.getD_some, Cut.before_cons_ne (by decide)] at hhost
          have hslash : '/' ∈ p.host := by
            rw [hh, hhost]
            simp
          exact p.noSlash hslash
    | nil =>
      have hrest : p.rest = p.portText ++ p.path.getD [] := by
        unfold rest
        rw [hh]
        rfl
      rw [hrest] at hhost hpath hr
      rw [hh] at hhost
      cases hp : p.port with
      | some port =>
        exfalso
        unfold portText at hhost
        rw [hp] at hhost
        obtain ⟨c, l, hd⟩ := List.exists_cons_of_ne_nil port.ne_nil
        have hc : c ≠ ':' := by
          rintro rfl
          exact not_mem_digits port rfl (by rw [hd]; exact List.mem_cons_self)
        simp only [Option.elim_some, hd, List.cons_append, List.tail_cons] at hhost
        rw [Cut.before_cons_ne hc] at hhost
        cases hhost
      | none =>
        unfold portText at hhost hpath hr
        rw [hp, Option.elim_none, List.nil_append] at hhost hpath hr
        cases ht : p.path with
        | none =>
          rw [ht] at hr
          exact absurd rfl hr
        | some t =>
          obtain ⟨u, rfl⟩ := p.rooted t ht
          rw [ht] at hpath
          replace hpath : '/' :: u = (Cut.from? '/' u).getD ['/'] := hpath
          refine ⟨rfl, rfl, ?_⟩
          cases u with
          | nil => rfl
          | cons c u =>
            -- the path behind is shorter
            exfalso
            cases hf : Cut.from? '/' (c :: u) with
            | none =>
              rw [hf] at hpath
              cases hpath
            | some t =>
              rw [hf, Option.getD_some] at hpath
              have hlen := (Cut.from?_suffix hf).length_le
              rw [← hpath, List.length_cons] at hlen
              omega
  · rintro ⟨hh, hp, ht⟩
    have hrest : p.rest = ['/'] := by
      unfold rest portText
      rw [hh, hp, ht]
      rfl
    rw [hrest, target, hw, hh, hp, ht]
    refine ⟨rfl, ?_, ?_⟩ <;> simp [Protocol.defaultPort, intMin, intMax]

end PointOfAccess

/-- `parsePoa` reads the parts of the served points of access, and refuses what begins with no scheme. -/
theorem parsePoa_iff_served (p : PointOfAccess) (s : CStr) (port : Int) :
    (parsePoa p.text 0 = some (some p.target) ↔ p.Served) ∧
      (parsePoa s port = some none ↔ ∀ prot : Protocol, ¬prot.scheme <+: s) := by
  constructor
  · unfold PointOfAccess.Served
    by_cases hw : p.prot = .wss
    · rw [PointOfAccess.parsePoa_text_wss hw]
      have hne : p.prot ≠ .ws := by rw [hw]; decide
      have hserved : ((p.prot ≠ .wss ∧ ∃ port ∈ p.port, (port.value : Int) ≤ intMax) ∨
          (p.prot = .ws ∧ p.port = none ∧ p.path = none) ∨
          (p.prot = .wss ∧ p.host = [] ∧ p.port = none ∧ p.path = some ['/'])) ↔
          p.host = [] ∧ p.port = none ∧ p.path = some ['/'] := by
        simp [hw]
      rw [hserved]
      by_cases hr : p.rest = []
      · rw [if_pos hr]
        refine iff_of_false (by simp) ?_
        rintro ⟨-, -, ht⟩
        unfold PointOfAccess.rest at hr
        rw [ht] at hr
        simp at hr
      · rw [if_neg hr, PointOfAccess.map_some_iff, PointOfAccess.readRest_late hw hr]
    · rw [PointOfAccess.parsePoa_text_of_ne hw, PointOfAccess.map_some_iff]
      cases hp : p.port with
      | some port => rw [PointOfAccess.readRest_port hp]; simp [hw]
      | none =>
        rw [PointOfAccess.readRest_noPort hp]
        have hdefault : p.prot.defaultPort = 0 ↔ p.prot = .ws := by
          revert hw
          cases p.prot <;> decide
        rw [hdefault]
        simp [hw, and_comm]
  · have hall : ∀ prot, prot ∈ Protocol.all := by
      intro prot
      cases prot <;> decide
    unfold parsePoa
    cases hf : Protocol.all.find? fun prot => prot.scheme.isPrefixOf s with
    | none =>
      rw [List.find?_eq_none] at hf
      refine iff_of_true rfl fun prot hp => hf prot (hall prot) ?_
      exact List.isPrefixOf_iff_prefix.mpr hp
    | some prot =>
      have hp := List.find?_some hf
      rw [List.isPrefixOf_iff_prefix] at hp
      refine iff_of_false ?_ fun h => h prot hp
      dsimp only
      split
      · simp
      · cases readRest prot (s.drop prot.offset) port <;> simp

/-- A host, and no port. -/
def plainHost : PointOfAccess where
  prot := .http
  host := "h".toList
  port := none
  path := none
  noColon := by decide
  noSlash := by decide
  rooted := by simp

/-- The default port is not filled in. -/
theorem not_parsePoa_plainHost : ¬ ∀ p : PointOfAccess, parsePoa p.text 0 = some (some p.target) := by
  intro h
  have := h plainHost
  revert this
  decide

end TinyIoT
