/-
Retrieving a resource with its child resources (`retrieve_onem2m_resource` and `make_response_body_retrieve` for the
result contents 4 and 8). The privilege to retrieve is checked on the target; the descendants come from the database,
or, with `arp`, from lookups below them, and all of them are put into the response: below their parents, or below the
target where the parent is not among them. The conversion of rows and nodes to JSON is left out.
-/
import TinyIoT.Discovery.Pages
import TinyIoT.Access.Decision

namespace TinyIoT

/-! ## The descendants of a response -/

/-- An element of `descendant_arr`: `ri`, `pi`, `ty` and `obj`, with the `uri` in it. -/
structure Descendant where
  ri : CStr
  pi : CStr
  ty : ResourceType
  uri : CStr
  obj : Obj

/-- A row of the answer of `db_get_descendants`. -/
def Descendant.ofRow (r : Row) : Descendant := ⟨r.ri.getD [], r.pi.getD [], r.ty, r.uri, r.obj⟩

/-- `build_arp_item`. -/
def Descendant.ofNode (n : RTNode) : Descendant := ⟨n.ri.getD [], (n.obj.str .pi).getD [], n.ty, n.uri, n.obj⟩

/-- `pimap_get`: the slots of a parent, the last one put there first. -/
def pimapGet (l : List Descendant) (ri : CStr) : List Descendant := (l.filter fun d => d.pi = ri).reverse

/-- The resources `attach_descendant_to_target` goes to, with a bound for the depth. -/
def attachedTo (l : List Descendant) : Nat → CStr → List CStr
  | 0, _ => []
  | depth + 1, ri => ri :: (pimapGet l ri).flatMap fun d => attachedTo l depth d.ri

/-- The descendants in the response, each with the `ri` it is put below: those attached to their parents
(`attach_descendant_to_target`), and the others (`attach_orphans_to_target`). -/
def shownBelow (l : List Descendant) (ri : CStr) : List (CStr × Descendant) :=
  ((attachedTo l (l.length + 1) ri).flatMap fun parent => (pimapGet l parent).map fun d => (parent, d)) ++
    (l.filter fun d => !(attachedTo l (l.length + 1) ri).contains d.pi).map fun d => (ri, d)

/-- Every descendant is in the response, and nothing else. -/
theorem mem_shownBelow {l : List Descendant} {ri : CStr} {d : Descendant} :
    (∃ parent, (parent, d) ∈ shownBelow l ri) ↔ d ∈ l := by
  unfold shownBelow
  constructor
  · rintro ⟨parent, h⟩
    rcases List.mem_append.mp h with h | h
    · obtain ⟨_, -, h⟩ := List.mem_flatMap.mp h
      obtain ⟨e, he, heq⟩ := List.mem_map.mp h
      cases heq
      exact List.mem_of_mem_filter (List.mem_reverse.mp he)
    · obtain ⟨e, he, heq⟩ := List.mem_map.mp h
      cases heq
      exact List.mem_of_mem_filter he
  · intro hd
    by_cases hatt : (attachedTo l (l.length + 1) ri).contains d.pi = true
    · refine ⟨d.pi, List.mem_append_left _ (List.mem_flatMap.mpr ⟨d.pi, List.contains_iff_mem.mp hatt, ?_⟩)⟩
      exact List.mem_map.mpr ⟨d, List.mem_reverse.mpr (List.mem_filter.mpr ⟨hd, decide_eq_true rfl⟩), rfl⟩
    · rw [Bool.not_eq_true] at hatt
      exact ⟨ri, List.mem_append_right _ (List.mem_map.mpr ⟨d, List.mem_filter.mpr ⟨hd, by rw [hatt]; rfl⟩, rfl⟩)⟩

namespace Server

/-! ## The request -/

/-- What `arp` names below a row, if it is there. -/
def arpNode (now : CStr) (s : Server) (arp : CStr) (e : Entry) : Option RTNode :=
  (s.findNode now (e.1.uri ++ '/' :: arp)).deref s

/-- `descendant_arr` for results with the attributes of child resources, given the filter criteria and their `arp`. -/
def descendantArr (b : Backend) (print : Json → CStr) (now : CStr) (s : Server) (uri : CStr) :
    Option (FilterCriteria × Option CStr) → Option (List Descendant)
  | none => some []
  | some (fc, none) => (dbGetDescendants b print {} s.db uri fc [] true).map fun l => l.map fun e => .ofRow e.1
  | some (fc, some arp) => (dbGetDescendants b print {} s.db uri fc [] true).map fun l =>
      l.filterMap fun e => (s.arpNode now arp e).map .ofNode

/-- `retrieve_onem2m_resource` with the attributes of child resources: the descendants in the response. -/
def retrieveOnem2mResource (b : Backend) (print : Json → CStr) (now : CStr) (s : Server) (req : Req) (p : Ptr)
    (fc : Option (FilterCriteria × Option CStr)) : Option (List (CStr × Descendant)) :=
  (s.checkPrivilege now req p .retrieve).bind fun ok =>
    if ok then (p.deref s).bind fun n => n.ri.bind fun ri =>
      (s.descendantArr b print now n.uri fc).map fun l => shownBelow l ri
    else some []

/-- The originator may retrieve the resource at an address. -/
def Grants (now : CStr) (s : Server) (req : Req) (uri : CStr) : Prop :=
  s.checkPrivilege now req (s.resolve uri) .retrieve = some true

/-- The addresses of the resources a request asks for below a resource: of the matching rows on the page, or of what
`arp` names below them. -/
def asked (b : Backend) (print : Json → CStr) (now : CStr) (s : Server) (uri : CStr) :
    Option (FilterCriteria × Option CStr) → List CStr
  | none => []
  | some (fc, none) => (pageRows b print [] s.db uri fc true).map fun e => e.1.uri
  | some (fc, some arp) => (pageRows b print [] s.db uri fc true).filterMap fun e => (s.arpNode now arp e).map RTNode.uri

variable {b : Backend} {print : Json → CStr} {now : CStr} {s : Server} {req : Req} {p : Ptr} {n : RTNode}
  {fc : Option (FilterCriteria × Option CStr)}

theorem asked_of_descendantArr {uri : CStr} {l : List Descendant} (h : s.descendantArr b print now uri fc = some l) :
    l.map (·.uri) = s.asked b print now uri fc := by
  rcases fc with _ | ⟨fc, arp⟩
  · cases h
    rfl
  have hpage := @getD_pageRows b print [] s.db uri fc true
  cases arp with
  | none =>
    obtain ⟨rows, hrows, rfl⟩ := Option.map_eq_some_iff.mp h
    have hrows : queryDescendants b print [] s.db uri fc true = some rows := queryDescendants_of_some hrows
    unfold asked
    simp only [← hpage, hrows, Option.getD_some, List.map_map]
    rfl
  | some arp =>
    obtain ⟨rows, hrows, rfl⟩ := Option.map_eq_some_iff.mp h
    have hrows : queryDescendants b print [] s.db uri fc true = some rows := queryDescendants_of_some hrows
    unfold asked
    simp only [← hpage, hrows, Option.getD_some, List.map_filterMap, Option.map_map]
    rfl

/-! ## Resources without a policy of their own -/

/-- Nothing from a resource up to the target decides about it but what decides about the target. -/
structure Inherits (s : Server) (p : Ptr) (n : RTNode) (q : Ptr) (d : RTNode) : Prop where
  path : ∃ below, s.ancestry q = below ++ s.ancestry p ∧ ∀ k ∈ below, Passed k
  plain : d.ty ≠ .acp ∧ d.ty ≠ .csr ∧ isAnnounced d.ty = false
  target : n.ty ≠ .acp ∧ n.ty ≠ .csr
  governed : ∃ m, ComesTo (s.ancestry p) m ∧ (m.obj.has .acpi = true ∨ m.ty = .ae)

theorem isCopy_retrieve (d : RTNode) : isCopy req .retrieve d = some false := by
  unfold isCopy
  split
  · rfl
  · exact if_neg fun h => absurd h.1 (by decide)

/-- No shortcut is for retrieving but that of a registered CSE. -/
theorem shortcut_retrieve {origin : CStr} {d : RTNode} {short : Bool} (hty : d.ty ≠ .csr)
    (h : shortcut req origin .retrieve d = some short) : short = false := by
  rw [shortcut_eq] at h
  obtain ⟨reg, hreg, h⟩ := Option.bind_eq_some_iff.mp h
  obtain ⟨orig, horig, h⟩ := Option.bind_eq_some_iff.mp h
  have hreg' : reg = false := by
    unfold isRegistree at hreg
    rw [if_neg fun h => hty h.2] at hreg
    cases hreg
    rfl
  have horig' : orig = false := by
    unfold isOriginal at horig
    split at horig
    · obtain ⟨lnk, -, rfl⟩ := Option.map_eq_some_iff.mp horig
      rfl
    · cases horig
      rfl
  rw [hreg', horig', isCopy_retrieve] at h
  cases h
  rfl

theorem shortcut_plain {origin : CStr} {d : RTNode} (hty : d.ty ≠ .csr) (hann : isAnnounced d.ty = false) :
    shortcut req origin .retrieve d = some false := by
  rw [shortcut_eq]
  unfold isRegistree isOriginal
  rw [if_neg fun h => hty h.2, if_neg (by simp [hann]), isCopy_retrieve]
  rfl

theorem governing_of_comesTo {path : List RTNode} {m : RTNode} (h : ComesTo path m)
    (hm : m.obj.has .acpi = true ∨ m.ty = .ae) : governing path = .acpi m ∨ governing path = .owner m := by
  cases hacpi : m.obj.has .acpi with
  | true => exact .inl (governing_acpi h hacpi)
  | false =>
    rcases hm with hm | hm
    · rw [hacpi] at hm
      cases hm
    · exact .inr (governing_owner h hacpi hm)

/-- What decides about the target lets the originator retrieve what inherits from it. -/
theorem grants_of_inherits {q : Ptr} {d : RTNode} (hp : p.deref s = some n) (hq : q.deref s = some d)
    (hi : Inherits s p n q d) (h : s.checkPrivilege now req p .retrieve = some true) :
    s.checkPrivilege now req q .retrieve = some true := by
  unfold checkPrivilege at h ⊢
  simp only [hp, hq, if_neg hi.target.1, if_neg hi.plain.1] at h ⊢
  split
  · rfl
  · rename_i hadmin
    rw [if_neg hadmin] at h
    split
    · rename_i hname
      rwa [if_pos hname] at h
    · rename_i hname
      rw [if_neg hname] at h
      obtain ⟨short, hshort, h⟩ := Option.bind_eq_some_iff.mp h
      rw [shortcut_retrieve hi.target.2 hshort] at h
      rw [shortcut_plain hi.plain.2.1 hi.plain.2.2]
      obtain ⟨below, hpath, hbelow⟩ := hi.path
      obtain ⟨m, hm, hpol⟩ := hi.governed
      show s.policyAllows now req _ _ q d = some true
      have h : s.policyAllows now req _ _ p n = some true := h
      unfold policyAllows at h ⊢
      rw [hpath, governing_append hbelow]
      rcases governing_of_comesTo hm hpol with hgov | hgov <;> rw [hgov] at h ⊢ <;> exact h

/-- Every descendant in the response is one the originator may retrieve exactly where the target is refused, or every
resource asked for that does not only inherit what decides about the target is one. -/
theorem onlyGranted_iff {shown : List (CStr × Descendant)} (hp : p.deref s = some n)
    (h : s.retrieveOnem2mResource b print now req p fc = some shown) :
    (∀ x ∈ shown, s.Grants now req x.2.uri) ↔
      s.checkPrivilege now req p .retrieve = some false ∨ ∀ u ∈ s.asked b print now n.uri fc,
        (∃ d, (s.resolve u).deref s = some d ∧ Inherits s p n (s.resolve u) d) ∨ s.Grants now req u := by
  obtain ⟨ok, hok, h⟩ := Option.bind_eq_some_iff.mp h
  cases ok with
  | false =>
    cases h
    exact iff_of_true (fun x hx => absurd hx List.not_mem_nil) (.inl hok)
  | true =>
    rw [if_pos rfl, hp, Option.bind_some] at h
    obtain ⟨ri, -, h⟩ := Option.bind_eq_some_iff.mp h
    obtain ⟨l, hl, rfl⟩ := Option.map_eq_some_iff.mp h
    rw [← asked_of_descendantArr hl, hok]
    constructor
    · intro hall
      right
      intro u hu
      right
      obtain ⟨d, hd, rfl⟩ := List.mem_map.mp hu
      obtain ⟨parent, hin⟩ := mem_shownBelow.mpr hd
      exact hall _ hin
    · rintro (hno | hall) x hx
      · cases hno
      · rcases hall _ (List.mem_map_of_mem (mem_shownBelow.mp ⟨x.1, hx⟩)) with ⟨d, hd, hi⟩ | hgrants
        · exact grants_of_inherits hp hd hi hok
        · exact hgrants

end Server

/-- A resource in the tree and in the database. -/
def Server.place (s : Server) (parent : Nat) (ty : ResourceType) (rn ri uri : String) (more : Obj) : Option Server := do
  let p ← s.node? parent
  let pi ← p.ri
  let obj : Obj := [(.rn, .str rn.toList), (.ri, .str ri.toList), (.pi, .str pi), (.ty, .int ty.code)] ++ more
  let db ← s.db.dbStoreResource obj uri.toList
  let n ← createRtnode s.nextId obj ty
  return { s with db := db, nextId := s.nextId + 1 }.addChildResourceTree p n

/-- A container under a policy for everybody, with two containers in it: one without a policy, and one under the default
policy, which lets everybody create only. -/
def lockedChild : Option Server := do
  let s ← boot firstDay
  let s ← s.place 0 .acp "open" "1-1" "TinyIoT/open" [(.pv, .obj [(.acr, .arr [acrEntry ["all".toList] allAcop])])]
  let s ← s.place 0 .cnt "c" "3-1" "TinyIoT/c" [(.acpi, .arr [.str "TinyIoT/open".toList])]
  let s ← s.place 3 .cnt "d" "3-2" "TinyIoT/c/d" []
  s.place 3 .cnt "e" "3-3" "TinyIoT/c/e" [(.acpi, .arr [.str "TinyIoT/defaultACP".toList])]

/-- A stranger's request for the container with its child resources. -/
def askChildren (s : Server) : Option (List (CStr × Descendant)) :=
  s.retrieveOnem2mResource .sqlite (fun _ => []) firstDay.now (strangerReq .retrieve .cnt) (.inTree 3) (some (noCriteria, none))

end TinyIoT
