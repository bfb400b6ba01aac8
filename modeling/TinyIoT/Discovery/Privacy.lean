/-
What discovery hides (`discover_onem2m_resource`, `append_forbidden`, `getForbiddenUri`, `getNonDiscoverableAcp`): the
addresses of the resources whose own `acpi` names, by its address, a policy that does not grant DISCOVERY to the
originator. The policy is looked for as a quoted text in the column, and the addresses found are left out by a pattern.
One policy that does not grant it hides a resource whatever the others grant, and what is below a hidden resource is not
hidden with it; but a resource that names its policies by their addresses is never disclosed against `check_privilege`.
-/
import TinyIoT.Access.Lookups
import TinyIoT.Discovery.Retrieve
import TinyIoT.Database.Deletion
import TinyIoT.Http.JsonWriter
import TinyIoT.Lib.Quoted

namespace TinyIoT

open Quoted

/-! ## The code -/

/-- The address of a policy that does not grant all of `acop`. -/
def ownNoPerm (granted : RTNode → Option Acop) (acop : Acop) (a : RTNode) : Option (List CStr) :=
  if a.ty = .acp then (granted a).map fun g => if g.covers acop then [] else [a.uri] else some []

/-- The walk of `getNoPermAcopDiscovery`: the addresses of the policies that do not grant all of `acop`. -/
def noPermAcop (granted : RTNode → Option Acop) (acop : Acop) : Forest RTNode → Option (List CStr)
  | .nil => some []
  | .node a c s => do
    let own ← ownNoPerm granted acop a
    let below ← noPermAcop granted acop c
    let rest ← noPermAcop granted acop s
    return own ++ below ++ rest

namespace Server

/-- `get_acop_origin` for a policy of the tree; `none` also where a group it looks up is expired and would be removed. -/
def acopOf (now : CStr) (s : Server) (req : Req) (a : RTNode) : Option Acop :=
  if (groupRefs req.fr a.obj .pv).all fun addr => decide (s.Settled now addr) then
    (Looking.getAcopOrigin now [] req.ip req.fr a false s).map Prod.fst
  else none

/-- `check_privilege`; `none` also where a resource it looks up is expired and would be removed. -/
def settledPrivilege (now : CStr) (s : Server) (req : Req) (p : Ptr) (acop : Acop) : Option Bool :=
  if s.looksSettled now req.fr p then s.privileged now req p acop else none

/-- `getNoPermAcopDiscovery`, from the CSEBase. -/
def getNoPermAcopDiscovery (now : CStr) (s : Server) (req : Req) (acop : Acop) : Option (List CStr) :=
  noPermAcop (s.acopOf now req) acop s.tree

/-- `getNonDiscoverableAcp`. -/
def getNonDiscoverableAcp (now : CStr) (s : Server) (req : Req) : Option (List CStr) :=
  s.getNoPermAcopDiscovery now req .discovery

/-- `append_forbidden`, `desc_append_forbidden`: what is left out; with `ops`, also what begins with the address of a
resource whose policies do not grant these operations. -/
def appendForbidden (b : Backend) (print : Json → CStr) (now : CStr) (s : Server) (req : Req) (ops : Option Json) :
    Option Forbidden := do
  let acpiList ← s.getNonDiscoverableAcp now req
  let uris ← getForbiddenUri b print s.db acpiList
  match ops with
  | none => return { uris := uris }
  | some j =>
    let acpiList ← s.getNoPermAcopDiscovery now req (BitVec.ofInt 32 j.valueint)
    let starts ← getForbiddenUri b print s.db acpiList
    return { uris := uris, starts := starts }

end Server

/-- What a discovery finds: a row, or what `arp` leads to below one. -/
inductive Discovered where
  | row (e : Entry)
  | node (n : RTNode)

/-- One row of a discovery with `arp`: what is found below it, if the originator may discover that. -/
def Server.discoveredBelow (now : CStr) (s : Server) (req : Req) (arp : CStr) (e : Entry) : Option (Option Discovered) :=
  let addr := e.1.uri ++ '/' :: arp
  -- an expired resource would be removed
  if s.Settled now addr then
    let q := s.findNode now addr
    match q.deref s with
    | none => some none
    | some m => (s.settledPrivilege now req q .discovery).map fun ok => if ok then some (.node m) else none
  else none

/-- `discover_onem2m_resource`, for a request with filter criteria (with their `ops` and `arp`); `none` where it is not
answered. The result is empty without the privilege on the target and for a content instance. With `arp` nothing is
forbidden in the query. -/
def Server.discoverOnem2mResource (b : Backend) (print : Json → CStr) (now : CStr) (s : Server) (req : Req) (p : Ptr)
    (fc : FilterCriteria) (ops : Option Json) (arp : Option CStr) (cols : CStr) (details : Bool) :
    Option (List Discovered) := do
  let n ← p.deref s
  let ok ← s.settledPrivilege now req p .discovery
  if !ok || n.ty = .cin then return []
  match arp with
  | none =>
    let forbidden ← s.appendForbidden b print now req ops
    let rows ← dbGetDescendants b print forbidden s.db n.uri fc cols details
    return rows.map .row
  | some arp =>
    let rows ← dbGetDescendants b print {} s.db n.uri fc cols details
    let found ← rows.mapM (s.discoveredBelow now req arp)
    return found.filterMap id

/-! ## Patterns -/

/-- No character of the text means something in a pattern. -/
def Verbatim (u : CStr) : Prop := u.all (fun c => c != '%' && c != '_' && c != '\\') = true

/-- A text `cJSON_PrintUnformatted` prints as it is. -/
def Bare (u : CStr) : Prop := ∀ c ∈ u, 31 < c.toNat ∧ c ≠ '"' ∧ c ≠ '\\'

instance (u : CStr) : Decidable (Verbatim u) := inferInstanceAs (Decidable (_ = true))

instance (u : CStr) : Decidable (Bare u) :=
  decidable_of_iff (u.all (fun c => decide (31 < c.toNat ∧ c ≠ '"' ∧ c ≠ '\\')) = true) (by simp [Bare])

/-- A list of such texts is printed with quotes and commas. -/
def PrintsTexts (print : Json → CStr) : Prop :=
  ∀ l : List CStr, (∀ s ∈ l, Bare s) → print (.arr (l.map .str)) = '[' :: (joined '"' ',' l ++ [']'])

theorem like_exact {u : CStr} (h : Verbatim u) (s : CStr) : like u s = true ↔ s = u := by
  induction u generalizing s with
  | nil =>
    unfold like
    rw [List.isEmpty_iff]
  | cons c u ih =>
    unfold Verbatim at h ih
    simp only [List.all_cons, Bool.and_eq_true, bne_iff_ne, ne_eq] at h
    obtain ⟨⟨⟨h₁, h₂⟩, h₃⟩, hu⟩ := h
    obtain ⟨hnil, hcons⟩ := like_cons h₁ h₂ h₃ u
    cases s with
    | nil => simp [hnil]
    | cons d s =>
      rw [hcons, Bool.and_eq_true, decide_eq_true_eq, ih (by simpa using hu)]
      constructor
      · rintro ⟨rfl, rfl⟩
        rfl
      · intro he
        obtain ⟨rfl, rfl⟩ := List.cons.inj he
        exact ⟨rfl, rfl⟩

theorem like_quotedPattern_eq (u s : CStr) : like (quotedPattern u) s = s.tails.any (like (quote '"' u ++ ['%'])) := by
  rw [show quote '"' u ++ ['%'] = '"' :: u ++ ['"', '%'] by simp [quote]]
  unfold quotedPattern
  rw [List.cons_append, List.cons_append]
  conv_lhs => unfold like
  rfl

theorem like_quotedPattern {u : CStr} (h : Verbatim u) (s : CStr) :
    like (quotedPattern u) s = true ↔ quote '"' u <:+: s := by
  have hq : Verbatim (quote '"' u) := by
    unfold Verbatim quote at *
    simpa using h
  rw [like_quotedPattern_eq, List.any_eq_true]
  constructor
  · rintro ⟨t, ht, hl⟩
    exact ((like_plain hq t).mp hl).isInfix.trans ((List.mem_tails _ _).mp ht).isInfix
  · rintro ⟨p, r, rfl⟩
    refine ⟨quote '"' u ++ r, (List.mem_tails _ _).mpr ⟨p, by simp⟩, (like_plain hq _).mpr (List.prefix_append _ _)⟩

/-- Without a backslash in it a text matches what it begins, whatever else its characters mean. -/
theorem like_prefix {p : CStr} (h : '\\' ∉ p) (r : CStr) : like (p ++ ['%']) (p ++ r) = true := by
  induction p with
  | nil =>
    have hany : like ['%'] r = r.tails.any (like []) := by unfold like; rfl
    rw [List.nil_append, List.nil_append, hany, List.any_eq_true]
    exact ⟨[], (List.mem_tails _ _).mpr List.nil_suffix, by unfold like; rfl⟩
  | cons c p ih =>
    rw [List.mem_cons, not_or] at h
    have hp := ih h.2
    rw [List.cons_append, List.cons_append]
    by_cases h₁ : c = '%'
    · subst h₁
      have hany : like ('%' :: (p ++ ['%'])) ('%' :: (p ++ r)) = ('%' :: (p ++ r)).tails.any (like (p ++ ['%'])) := by
        conv_lhs => unfold like
        rfl
      rw [hany, List.any_eq_true]
      exact ⟨p ++ r, (List.mem_tails _ _).mpr (List.suffix_cons _ _), hp⟩
    · by_cases h₂ : c = '_'
      · subst h₂
        have hone : like ('_' :: (p ++ ['%'])) ('_' :: (p ++ r)) = like (p ++ ['%']) (p ++ r) := by
          conv_lhs => unfold like
          rfl
        rw [hone]
        exact hp
      · rw [(like_cons h₁ h₂ (Ne.symm h.1) (p ++ ['%'])).2, hp, decide_eq_true rfl]
        rfl

theorem like_self {u : CStr} (h : '\\' ∉ u) : like u u = true := by
  induction u with
  | nil =>
    unfold like
    rfl
  | cons c u ih =>
    rw [List.mem_cons, not_or] at h
    have hu := ih h.2
    by_cases h₁ : c = '%'
    · subst h₁
      have hany : like ('%' :: u) ('%' :: u) = ('%' :: u).tails.any (like u) := by
        conv_lhs => unfold like
        rfl
      rw [hany, List.any_eq_true]
      exact ⟨u, (List.mem_tails _ _).mpr (List.suffix_cons _ _), hu⟩
    · by_cases h₂ : c = '_'
      · subst h₂
        have hone : like ('_' :: u) ('_' :: u) = like u u := by
          conv_lhs => unfold like
          rfl
        rw [hone]
        exact hu
      · rw [(like_cons h₁ h₂ (Ne.symm h.1) u).2, hu, decide_eq_true rfl]
        rfl

/-- A text without a backslash is found in quotes wherever it stands in quotes. -/
theorem like_quotedPattern_of_infix {u : CStr} (h : '\\' ∉ u) {s : CStr} (hs : quote '"' u <:+: s) :
    like (quotedPattern u) s = true := by
  obtain ⟨p, r, rfl⟩ := hs
  have hq : '\\' ∉ quote '"' u := by
    unfold quote
    simpa using h
  rw [like_quotedPattern_eq, List.any_eq_true]
  exact ⟨quote '"' u ++ r, (List.mem_tails _ _).mpr ⟨p, by simp⟩, like_prefix hq r⟩

/-! ## The policies that do not grant it -/

section Policies

variable {granted : RTNode → Option Acop} {acop : Acop} {t : Forest RTNode} {l : List CStr}

theorem mem_noPermAcop (h : noPermAcop granted acop t = some l) (u : CStr) :
    u ∈ l ↔ ∃ a ∈ t.nodes, a.ty = .acp ∧ a.uri = u ∧ ∃ g, granted a = some g ∧ g.covers acop = false := by
  induction t generalizing l with
  | nil =>
    cases h
    exact iff_of_false List.not_mem_nil (by rintro ⟨a, ha, -⟩; cases ha)
  | node a c s ihc ihs =>
    simp only [noPermAcop, Option.bind_eq_bind, Option.bind_eq_some_iff, Option.pure_def, Option.some.injEq] at h
    obtain ⟨own, hown, below, hbelow, rest, hrest, rfl⟩ := h
    have hmine : u ∈ own ↔ a.ty = .acp ∧ a.uri = u ∧ ∃ g, granted a = some g ∧ g.covers acop = false := by
      unfold ownNoPerm at hown
      split at hown
      · rename_i hty
        obtain ⟨g, hg, rfl⟩ := Option.map_eq_some_iff.mp hown
        by_cases hc : g.covers acop = true
        · rw [if_pos hc]
          refine iff_of_false List.not_mem_nil ?_
          rintro ⟨-, -, g', hg', hc'⟩
          cases hg.symm.trans hg'
          rw [hc] at hc'
          cases hc'
        · rw [if_neg hc, List.mem_singleton]
          exact ⟨fun he => ⟨hty, he.symm, g, hg, Bool.eq_false_iff.mpr hc⟩, fun h => h.2.1.symm⟩
      · rename_i hty
        cases hown
        exact iff_of_false List.not_mem_nil fun h => hty h.1
    simp only [List.mem_append, hmine, ihc hbelow, ihs hrest, Forest.nodes, List.mem_cons]
    constructor
    · rintro ((h | ⟨b, hb, h⟩) | ⟨b, hb, h⟩)
      · exact ⟨a, .inl rfl, h⟩
      · exact ⟨b, .inr (.inl hb), h⟩
      · exact ⟨b, .inr (.inr hb), h⟩
    · rintro ⟨b, rfl | hb | hb, h⟩
      · exact .inl (.inl h)
      · exact .inl (.inr ⟨b, hb, h⟩)
      · exact .inr ⟨b, hb, h⟩

theorem granted_of_noPermAcop (h : noPermAcop granted acop t = some l) {a : RTNode} (ha : a ∈ t.nodes) (hty : a.ty = .acp) :
    ∃ g, granted a = some g := by
  induction t generalizing l with
  | nil => cases ha
  | node b c s ihc ihs =>
    simp only [noPermAcop, Option.bind_eq_bind, Option.bind_eq_some_iff] at h
    obtain ⟨own, hown, below, hbelow, rest, hrest, -⟩ := h
    rw [Forest.nodes, List.mem_cons, List.mem_append] at ha
    rcases ha with rfl | ha | ha
    · unfold ownNoPerm at hown
      rw [if_pos hty] at hown
      obtain ⟨g, hg, -⟩ := Option.map_eq_some_iff.mp hown
      exact ⟨g, hg⟩
    · exact ihc hbelow ha
    · exact ihs hrest ha

end Policies

/-! ## What is left out -/

section Clear

variable {b : Backend} {print : Json → CStr} {pats : List CStr} {db : Db} {uri : CStr} {fc : FilterCriteria} {e : Entry}

/-- No pattern matches the address of the row. -/
def clear (b : Backend) (pats : List CStr) (r : Row) : Bool := pats.all fun pat => !b.like pat r.uri

theorem baseCond_clear (r : Row) : baseCond b pats uri fc r = (baseCond b [] uri fc r && clear b pats r) := by
  unfold baseCond clear
  simp only [List.all_nil, Bool.and_true]
  rw [Bool.and_right_comm]

theorem clear_of_baseCond {r : Row} (h : baseCond b pats uri fc r = true) : clear b pats r = true := by
  rw [baseCond_clear, Bool.and_eq_true] at h
  exact h.2

/-- Nothing the patterns match is among the rows, whatever the criteria are. -/
theorem clear_of_matching (h : e ∈ matching b print pats db uri fc) : e.1 ∈ db ∧ clear b pats e.1 = true :=
  ⟨(base_of_matching h).1, clear_of_baseCond (base_of_matching h).2⟩

/-- With criteria on the table `general` only, the patterns take away what they match and nothing else. -/
theorem mem_matching_iff (hres : hasResFc b fc = false) :
    e ∈ matching b print pats db uri fc ↔ e ∈ matching b print [] db uri fc ∧ clear b pats e.1 = true := by
  unfold matching generalWhere
  cases joinAll b fc (generalCriteria b print fc) with
  | none => exact iff_of_false List.not_mem_nil fun h => List.not_mem_nil h.1
  | some c =>
    simp only [Option.map_some, hres, Bool.false_eq_true, if_false]
    unfold rowsWhere bothCond
    rw [List.mem_filter, List.mem_filter, baseCond_clear]
    simp only [Bool.and_eq_true]
    tauto

end Clear

/-! ## What discovery hides -/

/-- The list of policies of the row has this text. -/
def Row.Names (r : Row) (u : CStr) : Prop := ∃ l : List CStr, r.obj.get .acpi = some (.arr (l.map .str)) ∧ u ∈ l

/-- The addresses, and the texts in the lists of policies, are printed as they are. -/
structure BareNames (s : Server) : Prop where
  uris : ∀ r ∈ s.db, r.uri ≠ [] ∧ Bare r.uri
  lists : ∀ r ∈ s.db, ∀ v, r.obj.get .acpi = some v → ∃ l : List CStr, v = .arr (l.map .str) ∧ ∀ u ∈ l, Bare u
  policies : ∀ a ∈ s.tree.nodes, a.ty = .acp → Bare a.uri ∧ a.uri ≠ [',']

/-- And no character of an address means something in a pattern. -/
structure VerbatimNames (s : Server) : Prop extends BareNames s where
  uriPatterns : ∀ r ∈ s.db, Verbatim r.uri
  policyPatterns : ∀ a ∈ s.tree.nodes, a.ty = .acp → Verbatim a.uri

section Hidden

variable {print : Json → CStr} {s : Server} {now : CStr} {req : Req} {uri : CStr} {fc : FilterCriteria} {r : Row} {u : CStr}

theorem Bare.noBackslash (h : Bare u) : '\\' ∉ u := fun hm => (h _ hm).2.2 rfl

theorem text_acpi {l : List CStr} (hprint : PrintsTexts print) (hl : ∀ u ∈ l, Bare u)
    (h : r.obj.get .acpi = some (.arr (l.map .str))) : r.text print .acpi = some (['['] ++ joined '"' ',' l ++ [']']) := by
  unfold Row.text
  rw [if_neg (by decide), h]
  exact congrArg some (hprint l hl)

/-- A text that stands in the list is found in the column; if it means itself as a pattern, no other is. -/
theorem named_of_names (hprint : PrintsTexts print) (hs : BareNames s) (hr : r ∈ s.db) (h : r.Names u) :
    (r.text print .acpi).any (like (quotedPattern u)) = true := by
  obtain ⟨l, hl, hu⟩ := h
  obtain ⟨l', hl', hbare⟩ := hs.lists r hr _ hl
  obtain rfl : l = l' := List.map_injective_iff.mpr (fun _ _ h => Json.str.inj h) (Json.arr.inj hl')
  rw [text_acpi hprint hbare hl, Option.any_some]
  refine like_quotedPattern_of_infix (hbare u hu).noBackslash ?_
  exact ((quote_infix_joined hu).trans (List.suffix_append _ _).isInfix).trans (List.prefix_append _ _).isInfix

theorem named_iff (hprint : PrintsTexts print) (hs : VerbatimNames s) (hr : r ∈ s.db) {a : RTNode} (ha : a ∈ s.tree.nodes)
    (hty : a.ty = .acp) : (r.text print .acpi).any (like (quotedPattern a.uri)) = true ↔ r.Names a.uri := by
  refine ⟨fun h => ?_, named_of_names hprint hs.toBareNames hr⟩
  obtain ⟨hbare, hne⟩ := hs.policies a ha hty
  cases hget : r.obj.get .acpi with
  | none =>
    unfold Row.text at h
    rw [if_neg (by decide), hget] at h
    cases h
  | some v =>
    obtain ⟨l, rfl, hl⟩ := hs.lists r hr v hget
    rw [text_acpi hprint hl hget, Option.any_some, like_quotedPattern (hs.policyPatterns a ha hty)] at h
    exact ⟨l, hget, (quote_infix_joined_iff (by decide) (fun hm => (hbare _ hm).2.1 rfl) hne
      (fun t ht hm => (hl t ht _ hm).2.1 rfl) (by decide) (by decide)).mp h⟩

theorem mem_getForbiddenUri {acps l : List CStr} {x : CStr} (h : getForbiddenUri .postgresql print s.db acps = some l) :
    x ∈ l ↔ ∃ q ∈ s.db, q.uri = x ∧ x ≠ [] ∧ ∃ u ∈ acps, (q.text print .acpi).any (like (quotedPattern u)) = true := by
  obtain ⟨-, h⟩ := Option.ite_none_right_eq_some.mp h
  cases h
  simp only [List.mem_filter, List.mem_map, List.any_eq_true, Backend.like]
  constructor
  · rintro ⟨⟨q, ⟨hq, hu⟩, rfl⟩, hne⟩
    exact ⟨q, hq, rfl, by simpa using hne, hu⟩
  · rintro ⟨q, hq, rfl, hne, hu⟩
    exact ⟨⟨q, ⟨hq, hu⟩, rfl⟩, by simpa using hne⟩

/-- The policy grants the originator DISCOVERY. -/
def Discloses (now : CStr) (s : Server) (req : Req) (a : RTNode) : Prop :=
  ∃ g, s.acopOf now req a = some g ∧ g.covers .discovery = true

/-- A policy that is named in the list of a row no pattern matches grants DISCOVERY. -/
theorem discloses_of_clear (hprint : PrintsTexts print) (hs : BareNames s) {ops : Option Json} {f : Forbidden}
    (hp : s.appendForbidden .postgresql print now req ops = some f) (hr : r ∈ s.db)
    (hclear : clear .postgresql f.patterns r = true) {a : RTNode} (ha : a ∈ s.tree.nodes) (hty : a.ty = .acp)
    (hn : r.Names a.uri) : Discloses now s req a := by
  unfold Server.appendForbidden at hp
  simp only [Option.bind_eq_bind, Option.bind_eq_some_iff] at hp
  obtain ⟨denied, hdenied, uris, huris, hp⟩ := hp
  obtain ⟨g, hg⟩ := granted_of_noPermAcop hdenied ha hty
  refine ⟨g, hg, ?_⟩
  by_contra hno
  have hmem : a.uri ∈ denied := (mem_noPermAcop hdenied _).mpr ⟨a, ha, hty, rfl, g, hg, Bool.eq_false_iff.mpr hno⟩
  have hx : r.uri ∈ uris :=
    (mem_getForbiddenUri huris).mpr ⟨r, hr, rfl, (hs.uris r hr).1, a.uri, hmem, named_of_names hprint hs hr hn⟩
  have hpat : r.uri ∈ f.patterns := by
    refine List.mem_append_left _ ?_
    cases ops with
    | none =>
      cases hp
      exact hx
    | some j =>
      simp only [Option.bind_eq_some_iff] at hp
      obtain ⟨more, -, starts, -, hp⟩ := hp
      cases hp
      exact hx
  have hself := like_self (hs.uris r hr).2.noBackslash
  have hout := List.all_eq_true.mp hclear _ hpat
  rw [show Backend.like .postgresql = like from rfl, hself] at hout
  cases hout

/-- The WHERE clause selects a row exactly when it meets the criteria and no policy its address is given in `acpi` with
denies DISCOVERY to the originator. -/
theorem selected_iff (hprint : PrintsTexts print) (hs : VerbatimNames s) (hres : hasResFc .postgresql fc = false)
    {f : Forbidden} (hp : s.appendForbidden .postgresql print now req none = some f) (e : Entry) :
    e ∈ matching .postgresql print f.patterns s.db uri fc ↔ e ∈ matching .postgresql print [] s.db uri fc ∧
      ∀ q ∈ s.db, q.uri = e.1.uri → ∀ a ∈ s.tree.nodes, a.ty = .acp → q.Names a.uri → Discloses now s req a := by
  rw [mem_matching_iff hres]
  refine and_congr_right fun _ => ⟨fun hclear q hq huri a ha hty hnames => ?_, fun hall => List.all_eq_true.mpr ?_⟩
  · refine discloses_of_clear hprint hs.toBareNames hp hq ?_ ha hty hnames
    unfold clear at hclear ⊢
    rwa [huri]
  · unfold Server.appendForbidden at hp
    simp only [Option.bind_eq_bind, Option.bind_eq_some_iff, Option.pure_def, Option.some.injEq] at hp
    obtain ⟨denied, hdenied, uris, huris, rfl⟩ := hp
    intro x hx
    have hx : x ∈ uris := by simpa [Forbidden.patterns] using hx
    obtain ⟨q, hq, rfl, -, u, hu, hcol⟩ := (mem_getForbiddenUri huris).mp hx
    obtain ⟨a, ha, hty, rfl, g, hg, hno⟩ := (mem_noPermAcop hdenied u).mp hu
    rw [Bool.not_eq_true', show Backend.like .postgresql = like from rfl, ← Bool.not_eq_true,
      like_exact (hs.uriPatterns q hq)]
    intro huri
    obtain ⟨g', hg', hyes⟩ := hall q hq huri.symm a ha hty ((named_iff hprint hs hq ha hty).mp hcol)
    cases hg.symm.trans hg'
    rw [hno] at hyes
    cases hyes

/-- A discovery for references answers with its page of the rows that meet the criteria and that no policy their address
is given in `acpi` with denies DISCOVERY to the originator: neither what the other policies grant nor what is above a
row matters. -/
theorem discoverable_iff (hprint : PrintsTexts print) (hs : VerbatimNames s) (hres : hasResFc .postgresql fc = false)
    {f : Forbidden} (hp : s.appendForbidden .postgresql print now req none = some f) {cols : CStr} {rows : List Entry}
    (h : dbGetDescendants .postgresql print f s.db uri fc cols false = some rows) :
    ∃ selected : List Entry, selected.Sublist (entriesDesc s.db) ∧
      (∀ e, e ∈ selected ↔ e ∈ matching .postgresql print [] s.db uri fc ∧
        ∀ q ∈ s.db, q.uri = e.1.uri → ∀ a ∈ s.tree.nodes, a.ty = .acp → q.Names a.uri → Discloses now s req a) ∧
      rows = (Backend.postgresql.window fc.limit fc.offset selected).getD [] := by
  refine ⟨matching .postgresql print f.patterns s.db uri fc, ?_, selected_iff hprint hs hres hp, ?_⟩
  · unfold matching
    rw [hres]
    split
    · exact List.nil_sublist _
    · exact List.filter_sublist
  · have hquery := queryDescendants_of_some h
    unfold queryDescendants at hquery
    unfold matching
    rw [hres] at hquery ⊢
    cases hw : generalWhere .postgresql print f.patterns uri fc with
    | none =>
      rw [hw] at hquery
      cases hquery
      unfold Backend.window
      dsimp only
      split <;> simp [Paging.window]
    | some cond =>
      rw [hw] at hquery
      simpa using hquery.symm

/-! ## What discovery never discloses -/

/-- What is found is not refused to the originator: a row whose policies are named by their addresses, by the policy of
its resource, and what `arp` leads to, by `check_privilege`. -/
def Discovered.Allowed (now : CStr) (s : Server) (req : Req) : Discovered → Prop
  | .row e => ∀ q n (us : List CStr), q.deref s = some n → n.ty ≠ .acp → n.obj.get .acpi = some (.arr (us.map .str)) →
      e.1.obj.get .acpi = n.obj.get .acpi → us ≠ [] →
      (∀ u ∈ us, ∃ a ∈ s.tree.nodes, a.uri = u ∧ s.policyNode now (.str u) = some a) →
      s.privileged now req q .discovery ≠ some false
  | .node n => ∃ q, q.deref s = some n ∧ s.privileged now req q .discovery = some true

/-- A policy that is found is one, and its address names nothing expired. -/
theorem policyNode_some {u : CStr} {a : RTNode} (h : s.policyNode now (.str u) = some a) : a.ty = .acp ∧ s.Settled now u := by
  have h : (match (s.findNode now u).deref s with
    | none => none
    | some acp => if acp.ty = .acp then some acp else none) = some a := h
  cases hfind : (s.findNode now u).deref s with
  | none =>
    rw [hfind] at h
    cases h
  | some acp =>
    rw [hfind] at h
    obtain ⟨hty, h⟩ := Option.ite_none_right_eq_some.mp h
    cases h
    refine ⟨hty, fun n hn => ?_⟩
    unfold Server.findNode at hfind
    rcases Server.findRtnode_cases (s := s) now u with hf | ⟨n', hn', hok, -⟩ | ⟨n', -, -, -, hf⟩
    · rw [hf] at hfind
      cases hfind
    · cases hn'.symm.trans hn
      exact hok
    · rw [hf] at hfind
      cases hfind

/-- What a policy grants when its groups are looked up is what it grants. -/
theorem getAcopOrigin_of_acopOf {a : RTNode} {g : Acop} (h : s.acopOf now req a = some g) :
    (∀ addr ∈ groupRefs req.fr a.obj .pv, s.Settled now addr) ∧ s.getAcopOrigin now req.ip req.fr a false = some g := by
  obtain ⟨hall, h⟩ := Option.ite_none_right_eq_some.mp h
  have hsettled : ∀ addr ∈ groupRefs req.fr a.obj .pv, s.Settled now addr := fun addr haddr =>
    of_decide_eq_true (List.all_eq_true.mp hall addr haddr)
  exact ⟨hsettled, (@Looking.still_getAcopOrigin False s now req.ip req.fr _ a false (fun h => h.elim) hsettled).fst h⟩

/-- Policies that all grant DISCOVERY let it through. -/
theorem privileged_of_discloses {q : Ptr} {n : RTNode} {us : List CStr} (hfr : req.fr ≠ [] ∧ req.fr ≠ ['C'])
    (hop : req.op ≠ .create) (hq : q.deref s = some n) (hty : n.ty ≠ .acp)
    (hacpi : n.obj.get .acpi = some (.arr (us.map .str))) (hne : us ≠ [])
    (hall : ∀ u ∈ us, ∃ a, s.policyNode now (.str u) = some a ∧ Discloses now s req a) :
    s.privileged now req q .discovery ≠ some false := by
  have hhead : ∃ above, s.ancestry q = n :: above := by
    cases q with
    | null => cases hq
    | inTree i =>
      obtain ⟨above, h⟩ := Forest.path?_of_find? hq
      exact ⟨above, by unfold Server.ancestry; rw [h]; rfl⟩
    | loose m p =>
      cases hq
      exact ⟨_, rfl⟩
  obtain ⟨above, hpath⟩ := hhead
  have hgov : governing (s.ancestry q) = .acpi n := by
    rw [hpath]
    exact governing_acpi ⟨[], above, rfl, fun _ h => (List.not_mem_nil h).elim⟩ (Option.isSome_iff_exists.mpr ⟨_, hacpi⟩)
  have hitems : n.obj.arr .acpi = us.map .str := by
    unfold Obj.arr
    rw [hacpi]
    rfl
  -- none of the lookups finds something expired
  have hsettled : s.looksSettled now req.fr q = true := by
    unfold Server.looksSettled Server.decisionRefs Server.governingRefs
    rw [hq, Option.all_some, if_neg hty, hgov, List.all_eq_true]
    intro addr haddr
    refine decide_eq_true ?_
    dsimp only at haddr
    unfold Server.acopRefs at haddr
    rw [if_neg hty, hitems, List.mem_append] at haddr
    rcases haddr with haddr | haddr
    · obtain ⟨j, hj, hv⟩ := List.mem_filterMap.mp haddr
      obtain ⟨u, hu, rfl⟩ := List.mem_map.mp hj
      obtain rfl : u = addr := Option.some.inj hv
      obtain ⟨a, ha, -⟩ := hall u hu
      exact (policyNode_some ha).2
    · obtain ⟨a, hmem, haddr⟩ := List.mem_flatMap.mp haddr
      obtain ⟨j, hj, ha⟩ := List.mem_filterMap.mp hmem
      obtain ⟨u, hu, rfl⟩ := List.mem_map.mp hj
      obtain ⟨a', ha', g, hg, -⟩ := hall u hu
      cases ha.symm.trans ha'
      exact (getAcopOrigin_of_acopOf hg).1 addr haddr
  intro hdeny
  have h := Server.privileged_settled hsettled hdeny
  unfold Server.checkPrivilege at h
  rw [hq] at h
  dsimp only at h
  by_cases hadmin : req.fr = adminAeId
  · rw [if_pos hadmin] at h
    cases h
  rw [if_neg hadmin, if_neg (by rintro (h | h); exacts [hfr.1 h, hfr.2 h]), if_neg hty,
    Server.normalizedOriginator_eq] at h
  obtain ⟨short, -, h⟩ := Option.bind_eq_some_iff.mp h
  cases short with
  | true => cases h
  | false =>
    change s.policyAllows now req req.fr (Server.wantedAcop req .discovery) q n = some false at h
    unfold Server.policyAllows Server.wantedAcop at h
    rw [hgov, if_neg fun hc => hop hc.1] at h
    obtain ⟨g, hg, hno⟩ := Option.map_eq_some_iff.mp h
    unfold Server.getAcop at hg
    rw [if_neg hadmin, if_neg hty, hacpi] at hg
    -- the first entry names a policy
    obtain ⟨u, us, rfl⟩ := List.exists_cons_of_ne_nil hne
    obtain ⟨a, ha, g', hg', hyes⟩ := hall u List.mem_cons_self
    have hmem : a ∈ s.policyNodes now (Json.arr ((u :: us).map .str)).items :=
      List.mem_filterMap.mpr ⟨.str u, List.mem_cons_self, ha⟩
    dsimp only at hg
    split at hg
    · rename_i hnil
      rw [hnil] at hmem
      cases hmem
    · have hcov := (Acop.union_covers_op hg .discovery).mpr ⟨a, hmem, g', (getAcopOrigin_of_acopOf hg').2, hyes⟩
      rw [show opToAcop .discovery = Acop.discovery from rfl, hno] at hcov
      cases hcov

/-- A row of the answer is in the database, and no pattern matches its address. -/
theorem clear_of_answer {b : Backend} {f : Forbidden} {db : Db} {cols : CStr} {details : Bool} {rows : List Entry}
    (h : dbGetDescendants b print f db uri fc cols details = some rows) {e : Entry} (he : e ∈ rows) :
    e.1 ∈ db ∧ clear b f.patterns e.1 = true := by
  have hpage := @getD_pageRows b print f.patterns db uri fc details
  rw [queryDescendants_of_some h, Option.getD_some] at hpage
  rw [hpage] at he
  exact clear_of_matching (matching_of_pageRows he)

/-- Someone who passes with anything but a creation has a name. -/
theorem real_of_privileged {p : Ptr} {acop : Acop} (hop : req.op ≠ .create)
    (h : s.settledPrivilege now req p acop = some true) : req.fr ≠ [] ∧ req.fr ≠ ['C'] := by
  obtain ⟨hlooks, h⟩ := Option.ite_none_right_eq_some.mp h
  have h := Server.privileged_settled hlooks h
  rw [← not_or]
  intro hno
  unfold Server.checkPrivilege at h
  split at h
  · cases h
  · rw [if_neg (by rintro he; rw [he] at hno; revert hno; decide), if_pos hno, decide_eq_false hop] at h
    cases h

theorem mem_of_mapM {α β : Type} {f : α → Option β} {l : List α} {r : List β} (h : l.mapM f = some r) {y : β} (hy : y ∈ r) :
    ∃ a ∈ l, f a = some y := by
  induction l generalizing r with
  | nil =>
    cases h
    cases hy
  | cons a l ih =>
    rw [List.mapM_cons] at h
    simp only [Option.bind_eq_bind, Option.bind_eq_some_iff, Option.pure_def, Option.some.injEq] at h
    obtain ⟨b, hb, r', hr', rfl⟩ := h
    rcases List.mem_cons.mp hy with rfl | hy
    · exact ⟨a, List.mem_cons_self, hb⟩
    · obtain ⟨c, hc, hf⟩ := ih hr' hy
      exact ⟨c, List.mem_cons_of_mem _ hc, hf⟩

/-- Discovery never discloses, whatever the criteria, `ops` and `arp` are, a resource whose policies are named by their
addresses and to which `check_privilege` refuses the originator DISCOVERY. -/
theorem undisclosed (hprint : PrintsTexts print) (hs : BareNames s) {p : Ptr} {ops : Option Json} {arp : Option CStr}
    {cols : CStr} {details : Bool} {l : List Discovered} (hop : req.op ≠ .create)
    (h : s.discoverOnem2mResource .postgresql print now req p fc ops arp cols details = some l) :
    ∀ x ∈ l, x.Allowed now s req := by
  unfold Server.discoverOnem2mResource at h
  simp only [Option.bind_eq_bind, Option.bind_eq_some_iff] at h
  obtain ⟨n, hn, ok, hok, h⟩ := h
  split at h
  · cases h
    exact fun _ hx => (List.not_mem_nil hx).elim
  rename_i hgo
  have hok' : ok = true := by
    cases ok
    · exact absurd rfl hgo
    · rfl
  subst hok'
  have hfr := real_of_privileged hop hok
  cases arp with
  | none =>
    simp only [Option.bind_eq_some_iff] at h
    obtain ⟨f, hf, rows, hrows, h⟩ := h
    cases h
    intro x hx
    obtain ⟨e, he, rfl⟩ := List.mem_map.mp hx
    obtain ⟨hdb, hclear⟩ := clear_of_answer hrows he
    intro q m us hq hty hacpi hsame hne hpol
    refine privileged_of_discloses hfr hop hq hty hacpi hne fun u hu => ?_
    obtain ⟨a, ha, rfl, hnode⟩ := hpol u hu
    exact ⟨a, hnode, discloses_of_clear hprint hs hf hdb hclear ha (policyNode_some hnode).1 ⟨us, hsame.trans hacpi, hu⟩⟩
  | some arp =>
    simp only [Option.bind_eq_some_iff] at h
    obtain ⟨rows, -, found, hfound, h⟩ := h
    cases h
    intro x hx
    obtain ⟨y, hy, rfl⟩ := List.mem_filterMap.mp hx
    obtain ⟨e, -, he⟩ := mem_of_mapM hfound hy
    unfold Server.discoveredBelow at he
    obtain ⟨-, he⟩ := Option.ite_none_right_eq_some.mp he
    dsimp only at he
    split at he
    · cases he
    · rename_i m hm
      obtain ⟨ok, hok, he⟩ := Option.map_eq_some_iff.mp he
      cases ok with
      | false => cases he
      | true =>
        cases he
        exact ⟨_, hm, (Option.ite_none_right_eq_some.mp hok).2⟩

end Hidden

/-! ## A locked container -/

open JsonText (Value)

/-- A list of texts as a value to be printed. -/
def textsValue : Json → Value
  | .arr l => .arr ((l.filterMap Json.valuestring).map .str)
  | _ => .word "null".toList

/-- `cJSON_PrintUnformatted` of a list of texts. -/
def printTexts (j : Json) : CStr := cjsonPrintUnformatted (textsValue j)

theorem printString_bare {s : CStr} (h : Bare s) : printString s = quote '"' s := by
  have hesc : s.flatMap escapeChar = s := by
    induction s with
    | nil => rfl
    | cons c s ih =>
      rw [List.flatMap_cons, ih fun d hd => h d (List.mem_cons_of_mem _ hd), escapeChar, if_pos (h c List.mem_cons_self)]
      rfl
  unfold printString quote
  rw [hesc]

theorem printElements_bare (depth : Nat) {l : List CStr} (h : ∀ s ∈ l, Bare s) :
    printElements false depth (l.map .str) = joined '"' ',' l := by
  induction l with
  | nil => rfl
  | cons s l ih =>
    have hl := ih fun t ht => h t (List.mem_cons_of_mem _ ht)
    rw [List.map_cons, printElements, hl, printValue, printString_bare (h s List.mem_cons_self)]
    cases l with
    | nil => simp [joined, trail]
    | cons t l =>
      rw [show joined '"' ',' (s :: t :: l) = quote '"' s ++ trail '"' ',' (t :: l) from rfl, trail_eq_cons_joined]
      simp [layout]

/-- cJSON prints such lists so. -/
theorem printsTexts_printTexts : PrintsTexts printTexts := by
  intro l hl
  have hvalues : (l.map Json.str).filterMap Json.valuestring = l := by
    rw [List.filterMap_map]
    exact List.filterMap_some
  unfold printTexts textsValue cjsonPrintUnformatted
  dsimp only
  rw [hvalues, printValue, printElements_bare _ hl]

/-- Two policies, one of which grants everyone only RETRIEVE, a container it holds for, and one in that container. -/
def lockedCse : Server where
  tree := .node
    { id := 0, ty := .cse, rn := cseBaseName, uri := cseBaseName, obj := [(.acpi, .arr [.str "TinyIoT/q".toList])] }
    (.node { id := 1, ty := .acp, rn := "p".toList, uri := "TinyIoT/p".toList,
             obj := [(.pv, .obj [(.acr, .arr [acrEntry ["all".toList] 2])])] } .nil
      (.node { id := 2, ty := .acp, rn := "q".toList, uri := "TinyIoT/q".toList,
               obj := [(.pv, .obj [(.acr, .arr [acrEntry ["all".toList] 34])])] } .nil .nil)) .nil
  csrList := []
  db := [⟨"TinyIoT/c".toList, .cnt, [(.acpi, .arr [.str "TinyIoT/p".toList])]⟩, ⟨"TinyIoT/c/d".toList, .cnt, []⟩]
  nextId := 3
  riCount := 0

def anyCriteria : FilterCriteria := ⟨fun _ => none, none, none⟩

def curious : Req := { op := .retrieve, fr := "CAE1".toList, target := cseBaseName }

theorem verbatimNames_lockedCse : VerbatimNames lockedCse where
  uris := by
    simp only [lockedCse, List.forall_mem_cons]
    exact ⟨⟨by decide, by decide⟩, ⟨by decide, by decide⟩, by simp⟩
  lists := by
    simp only [lockedCse, List.forall_mem_cons]
    refine ⟨fun v hv => ?_, fun v hv => ?_, by simp⟩
    · cases hv
      exact ⟨["TinyIoT/p".toList], rfl, List.forall_mem_singleton.mpr (by decide)⟩
    · cases hv
  policies := by
    simp only [lockedCse, Forest.nodes, List.nil_append, List.append_nil, List.forall_mem_cons]
    refine ⟨fun h => ?_, fun _ => ⟨by decide, by decide⟩, fun _ => ⟨by decide, by decide⟩, by simp⟩
    cases h
  uriPatterns := by
    simp only [lockedCse, List.forall_mem_cons]
    exact ⟨by decide, by decide, by simp⟩
  policyPatterns := by
    simp only [lockedCse, Forest.nodes, List.nil_append, List.append_nil, List.forall_mem_cons]
    refine ⟨fun h => ?_, fun _ => by decide, fun _ => by decide, by simp⟩
    cases h

/-- The answer to a discovery of addresses from the CSEBase. -/
def lockedRows : Option (Forbidden × List Entry) := do
  let f ← lockedCse.appendForbidden .postgresql printTexts [] curious none
  let rows ← dbGetDescendants .postgresql printTexts f lockedCse.db cseBaseName anyCriteria uriColumn false
  return (f, rows)

/-- The container is hidden, and what is in it is found. -/
theorem discoverable_iff_locked : ∃ f rows selected,
    lockedCse.appendForbidden .postgresql printTexts [] curious none = some f ∧
    dbGetDescendants .postgresql printTexts f lockedCse.db cseBaseName anyCriteria uriColumn false = some rows ∧
    rows = (Backend.postgresql.window anyCriteria.limit anyCriteria.offset selected).getD [] ∧
    (⟨"TinyIoT/c".toList, .cnt, [(.acpi, .arr [.str "TinyIoT/p".toList])]⟩, 0) ∉ selected ∧
    (⟨"TinyIoT/c/d".toList, .cnt, []⟩, 1) ∈ selected := by
  have hsome : lockedRows.isSome = true := by decide +kernel
  obtain ⟨⟨f', rows'⟩, hlocked⟩ := Option.isSome_iff_exists.mp hsome
  unfold lockedRows at hlocked
  simp only [Option.bind_eq_bind, Option.bind_eq_some_iff] at hlocked
  obtain ⟨f, hf, rows, hrows, -⟩ := hlocked
  obtain ⟨selected, -, h, hpage⟩ :=
    discoverable_iff printsTexts_printTexts verbatimNames_lockedCse (by decide) hf hrows
  refine ⟨f, rows, selected, hf, hrows, hpage, fun hc => ?_, (h _).mpr ⟨?_, ?_⟩⟩
  · obtain ⟨g, hg, hyes⟩ := ((h _).mp hc).2 ⟨"TinyIoT/c".toList, .cnt, [(.acpi, .arr [.str "TinyIoT/p".toList])]⟩
      List.mem_cons_self rfl _ (List.mem_cons_of_mem _ List.mem_cons_self) rfl
      ⟨["TinyIoT/p".toList], rfl, List.mem_cons_self⟩
    have hacop : lockedCse.acopOf [] curious
        { id := 1, ty := .acp, rn := "p".toList, uri := "TinyIoT/p".toList,
          obj := [(.pv, .obj [(.acr, .arr [acrEntry ["all".toList] 2])])] } = some .retrieve := by decide +kernel
    cases hacop.symm.trans hg
    cases hyes
  · refine List.mem_filter.mpr ⟨?_, by decide +kernel⟩
    exact List.mem_cons_self
  · intro q hq huri a ha hty hn
    simp only [lockedCse, List.mem_cons, List.not_mem_nil, or_false] at hq
    rcases hq with rfl | rfl
    · exact absurd huri (by decide)
    · obtain ⟨l, hl, -⟩ := hn
      cases hl

/-- On the CSEBase everyone may discover, and the container's only policy does not allow it. -/
theorem undisclosed_locked : ∃ l, lockedCse.discoverOnem2mResource .postgresql printTexts [] curious (.inTree 0) anyCriteria
    none none uriColumn false = some l ∧ l.length = 1 ∧ ∀ x ∈ l, x.Allowed [] lockedCse curious := by
  have hlen : (lockedCse.discoverOnem2mResource .postgresql printTexts [] curious (.inTree 0) anyCriteria none none
      uriColumn false).map List.length = some 1 := by decide +kernel
  obtain ⟨l, hl, hone⟩ := Option.map_eq_some_iff.mp hlen
  refine ⟨l, hl, hone, undisclosed printsTexts_printTexts verbatimNames_lockedCse.toBareNames ?_ hl⟩
  decide

end TinyIoT
