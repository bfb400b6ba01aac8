/-
Who may do what: the decision of `check_privilege`, stated without its early returns. A right comes
from the registration of an AE, from the policy a resource is itself, from the relation of a CSE to its
own resource, or from the resource that governs: the nearest one with an `acpi`, an AE, or the creator.
-/
import TinyIoT.Access.Revocation

namespace TinyIoT

/-! ## Single operations -/

namespace Acop

/-- The bit of an operation. -/
def bit : Operation → Nat
  | .create => 0
  | .retrieve => 1
  | .update => 2
  | .delete => 3
  | .notify => 4
  | .discovery => 5

theorem opToAcop_eq (op : Operation) : opToAcop op = BitVec.twoPow 32 (bit op) := by
  cases op <;> rfl

/-- A set covers an operation when it has its bit. -/
theorem covers_op (g : Acop) (op : Operation) : g.covers (opToAcop op) = g.getLsbD (bit op) := by
  have hne : BitVec.twoPow 32 (bit op) ≠ 0 := by cases op <;> decide
  unfold covers
  rw [opToAcop_eq, BitVec.and_twoPow]
  split
  · rename_i h
    rw [h, decide_eq_true rfl]
  · rename_i h
    rw [Bool.not_eq_true] at h
    rw [h]
    exact decide_eq_false fun h => hne h.symm

/-- A set covers another when it has all its bits. -/
theorem covers_iff (g w : Acop) : g.covers w = true ↔ ∀ i (hi : i < 32), w[i] = true → g[i] = true := by
  unfold covers
  rw [decide_eq_true_eq]
  constructor
  · intro h i hi hw
    rw [← h, BitVec.getElem_and, Bool.and_eq_true] at hw
    exact hw.1
  · intro h
    ext i hi
    rw [BitVec.getElem_and]
    cases hw : w[i] with
    | false => exact Bool.and_false _
    | true => rw [h i hi hw, Bool.and_true]

theorem covers_or (g a b : Acop) : g.covers (a ||| b) = true ↔ g.covers a = true ∧ g.covers b = true := by
  simp only [covers_iff, BitVec.getElem_or, Bool.or_eq_true]
  constructor
  · intro h
    exact ⟨fun i hi ha => h i hi (.inl ha), fun i hi hb => h i hi (.inr hb)⟩
  · rintro ⟨ha, hb⟩ i hi (h | h)
    · exact ha i hi h
    · exact hb i hi h

/-- A union covers an operation when one of its elements does. -/
theorem union_covers_op {α : Type} {f : α → Option Acop} {l : List α} {g : Acop} (h : union f l = some g)
    (op : Operation) : g.covers (opToAcop op) = true ↔ ∃ x ∈ l, ∃ a, f x = some a ∧ a.covers (opToAcop op) = true := by
  constructor
  · unfold union at h
    suffices hacc : ∀ acc, l.foldlM (fun acop x => (f x).map (acop ||| ·)) acc = some g →
        g.covers (opToAcop op) = true → acc.covers (opToAcop op) = true ∨
          ∃ x ∈ l, ∃ a, f x = some a ∧ a.covers (opToAcop op) = true by
      intro hg
      rcases hacc 0 h hg with h0 | h
      · rw [covers_op] at h0
        simp at h0
      · exact h
    clear h
    induction l with
    | nil =>
      intro acc h hg
      cases h
      exact .inl hg
    | cons x l ih =>
      intro acc h hg
      obtain ⟨a, ha, h⟩ := union_step h
      rcases ih _ h hg with hor | ⟨y, hy, b, hb, hc⟩
      · rw [covers_op, BitVec.getLsbD_or, Bool.or_eq_true] at hor
        rcases hor with hor | hor
        · exact .inl (by rw [covers_op]; exact hor)
        · exact .inr ⟨x, List.mem_cons_self, a, ha, by rw [covers_op]; exact hor⟩
      · exact .inr ⟨y, List.mem_cons_of_mem _ hy, b, hb, hc⟩
  · rintro ⟨x, hx, a, ha, hc⟩
    obtain ⟨a', ha', hw⟩ := within_union h x hx
    cases ha.symm.trans ha'
    exact covers_mono hw hc

end Acop

/-! ## What a request needs, and what a policy gives -/

/-- The operations a request needs on a resource: creating a subscription needs the right to retrieve too. -/
def needed (req : Req) (op : Operation) : List Operation :=
  if req.op = .create ∧ req.ty = ResourceType.sub.code then [op, .retrieve] else [op]

theorem covers_wanted (g : Acop) (req : Req) (op : Operation) :
    g.covers (Server.wantedAcop req (opToAcop op)) = true ↔ ∀ o ∈ needed req op, g.covers (opToAcop o) = true := by
  unfold Server.wantedAcop needed
  split
  · rw [List.forall_mem_cons, List.forall_mem_singleton]
    exact Acop.covers_or g (opToAcop op) (opToAcop .retrieve)
  · rw [List.forall_mem_singleton]

/-- What a default gives suffices when nothing but CREATE is needed. -/
theorem fallback_covers (req : Req) (op : Operation) :
    Acop.fallback.covers (Server.wantedAcop req (opToAcop op)) = true ↔ needed req op = [.create] := by
  have hone : ∀ o, Acop.fallback.covers (opToAcop o) = true ↔ o = .create := by
    intro o
    cases o <;> decide
  rw [covers_wanted]
  unfold needed
  split
  · simp [hone]
  · simp [hone]

/-- An originator a request comes from, as against one that only asks for a name. -/
def Real (fr : CStr) : Prop := fr ≠ [] ∧ fr ≠ ['C']

instance (fr : CStr) : Decidable (Real fr) := inferInstanceAs (Decidable (_ ∧ _))

namespace Server

/-- An access control rule is for the originator, in the context the request comes from. -/
def Concerns (now : CStr) (s : Server) (req : Req) (acr : Json) : Prop :=
  anyString (s.acorMatches now req.fr) (originators acr) = some true ∧ checkAcco (acr.member .acco) req.ip = some true

/-- One of the rules of `pv` or `pvs` gives the originator an operation. -/
def Gives (now : CStr) (s : Server) (req : Req) (k : Attr) (acp : RTNode) (op : Operation) : Prop :=
  ∃ acr ∈ rules acp.obj k, s.Concerns now req acr ∧
    ∃ acop, acr.member .acop = some acop ∧ Acop.covers (BitVec.ofInt 32 acop.valueint) (opToAcop op) = true

/-- The policies the `acpi` of a node resolves to. -/
def acpiPolicies (now : CStr) (s : Server) (m : RTNode) : List RTNode := s.policyNodes now (m.obj.arr .acpi)

/-- The policies an `acpi` resolves to give together what is needed; where it resolves to none, creating
is what they give. -/
def UnitedPv (now : CStr) (s : Server) (req : Req) (op : Operation) (m : RTNode) : Prop :=
  (s.acpiPolicies now m ≠ [] ∧ ∀ o ∈ needed req op, ∃ acp ∈ s.acpiPolicies now m, s.Gives now req .pv acp o) ∨
  (s.acpiPolicies now m = [] ∧ needed req op = [.create])

/-- The same, but a policy that has an `acpi` of its own gives what its `pvs` gives. -/
def OwnPvs (now : CStr) (s : Server) (req : Req) (op : Operation) (m : RTNode) : Prop :=
  if m.ty = .acp then ∀ o ∈ needed req op, s.Gives now req .pvs m o else s.UnitedPv now req op m

variable {now : CStr} {s : Server}

theorem ruleAcop_covers {req : Req} {acr : Json} {a : Acop} (h : s.ruleAcop now req.ip req.fr acr = some a)
    (op : Operation) : a.covers (opToAcop op) = true ↔ s.Concerns now req acr ∧
      ∃ acop, acr.member .acop = some acop ∧ Acop.covers (BitVec.ofInt 32 acop.valueint) (opToAcop op) = true := by
  have hzero : Acop.covers 0 (opToAcop op) = false := by cases op <;> rfl
  unfold Server.ruleAcop at h
  simp only [Option.bind_eq_bind, Option.bind_eq_some_iff] at h
  obtain ⟨b, hb, h⟩ := h
  unfold Concerns
  rw [hb]
  cases b with
  | false =>
    cases h
    rw [hzero]
    simp
  | true =>
    simp only [if_true, Option.bind_eq_some_iff] at h
    obtain ⟨c, hc, h⟩ := h
    rw [hc]
    cases c with
    | false =>
      cases h
      rw [hzero]
      simp
    | true =>
      simp only [if_true, Option.bind_eq_some_iff] at h
      obtain ⟨acop, hacop, h⟩ := h
      cases h
      simp [hacop]

/-- What a policy grants is what its rules give. -/
theorem getAcopOrigin_covers {req : Req} {acp : RTNode} {self : Bool} {g : Acop} (hfr : req.fr ≠ adminAeId)
    (h : s.getAcopOrigin now req.ip req.fr acp self = some g) (op : Operation) :
    g.covers (opToAcop op) = true ↔ s.Gives now req (if self then .pvs else .pv) acp op := by
  unfold Server.getAcopOrigin at h
  rw [if_neg hfr] at h
  rw [Acop.union_covers_op h]
  constructor
  · rintro ⟨acr, hacr, a, ha, hc⟩
    exact ⟨acr, hacr, (ruleAcop_covers ha op).mp hc⟩
  · rintro ⟨acr, hacr, hg⟩
    obtain ⟨a, ha, -⟩ := Acop.within_union h acr hacr
    exact ⟨acr, hacr, a, ha, (ruleAcop_covers ha op).mpr hg⟩

theorem unionAcop_covers {req : Req} {acps : List RTNode} {g : Acop} (hfr : req.fr ≠ adminAeId)
    (h : s.unionAcop now req.ip req.fr acps = some g) (op : Operation) :
    g.covers (opToAcop op) = true ↔ ∃ acp ∈ acps, s.Gives now req .pv acp op := by
  unfold Server.unionAcop at h
  rw [Acop.union_covers_op h]
  constructor
  · rintro ⟨acp, hacp, a, ha, hc⟩
    exact ⟨acp, hacp, (getAcopOrigin_covers hfr ha op).mp hc⟩
  · rintro ⟨acp, hacp, hg⟩
    obtain ⟨a, ha, -⟩ := Acop.within_union h acp hacp
    exact ⟨acp, hacp, a, ha, (getAcopOrigin_covers hfr ha op).mpr hg⟩

/-- What the governing node grants. -/
theorem getAcop_covers {req : Req} {m : RTNode} {g : Acop} (hfr : req.fr ≠ adminAeId) (hm : m.obj.has .acpi = true)
    (h : s.getAcop now req.ip req.fr m = some g) (op : Operation) :
    g.covers (Server.wantedAcop req (opToAcop op)) = true ↔ s.OwnPvs now req op m := by
  unfold Server.getAcop at h
  rw [if_neg hfr] at h
  unfold OwnPvs
  by_cases hty : m.ty = .acp
  · rw [if_pos hty] at h ⊢
    rw [covers_wanted]
    exact forall₂_congr fun o _ => getAcopOrigin_covers hfr h o
  · rw [if_neg hty] at h ⊢
    obtain ⟨acpi, hacpi⟩ : ∃ acpi, m.obj.get .acpi = some acpi := Option.isSome_iff_exists.mp hm
    have hpol : s.acpiPolicies now m = s.policyNodes now acpi.items := by
      unfold acpiPolicies Obj.arr
      rw [hacpi]
      rfl
    unfold UnitedPv
    rw [hacpi] at h
    simp only [hpol] at h ⊢
    cases hl : s.policyNodes now acpi.items with
    | nil =>
      rw [hl] at h
      cases h
      rw [fallback_covers]
      simp
    | cons acp acps =>
      rw [hl] at h
      rw [covers_wanted, forall₂_congr fun o _ => unionAcop_covers hfr h o]
      simp

end Server

/-! ## The node that governs -/

/-- A node the search for an `acpi` passes. -/
def Passed (n : RTNode) : Prop := n.obj.has .acpi = false ∧ n.ty ≠ .ae

/-- The search along a path of ancestors comes to a node. -/
def ComesTo (path : List RTNode) (m : RTNode) : Prop :=
  ∃ below above, path = below ++ m :: above ∧ ∀ k ∈ below, Passed k

theorem governing_cons {m : RTNode} (hm : Passed m) (above : List RTNode) : governing (m :: above) = governing above := by
  have hty : ¬ m.ty = .ae := hm.2
  rw [governing, hm.1, if_neg Bool.false_ne_true, if_neg hty]

theorem governing_append {below : List RTNode} (hb : ∀ k ∈ below, Passed k) (path : List RTNode) :
    governing (below ++ path) = governing path := by
  induction below with
  | nil => rfl
  | cons k below ih =>
    rw [List.cons_append, governing_cons (hb k List.mem_cons_self)]
    exact ih fun j hj => hb j (List.mem_cons_of_mem _ hj)

theorem governing_acpi {path : List RTNode} {m : RTNode} (h : ComesTo path m) (hm : m.obj.has .acpi = true) :
    governing path = .acpi m := by
  obtain ⟨below, above, rfl, hb⟩ := h
  rw [governing_append hb]
  unfold governing
  rw [if_pos hm]

theorem governing_owner {path : List RTNode} {m : RTNode} (h : ComesTo path m) (hm : m.obj.has .acpi = false)
    (hty : m.ty = .ae) : governing path = .owner m := by
  obtain ⟨below, above, rfl, hb⟩ := h
  rw [governing_append hb]
  unfold governing
  rw [hm, if_neg Bool.false_ne_true, if_pos hty]

theorem governing_creator {path : List RTNode} (h : ∀ k ∈ path, Passed k) : governing path = .creator := by
  have := governing_append h []
  rw [List.append_nil] at this
  exact this

theorem ComesTo.cons {path : List RTNode} {k m : RTNode} (hk : Passed k) (h : ComesTo path m) : ComesTo (k :: path) m := by
  obtain ⟨below, above, rfl, hb⟩ := h
  refine ⟨k :: below, above, rfl, fun j hj => ?_⟩
  rcases List.mem_cons.mp hj with rfl | hj
  · exact hk
  · exact hb j hj

/-- The search ends at an `acpi`, at an AE without one, or it passes every node. -/
theorem governing_cases (path : List RTNode) :
    (∃ m, ComesTo path m ∧ m.obj.has .acpi = true) ∨ (∃ m, ComesTo path m ∧ m.obj.has .acpi = false ∧ m.ty = .ae) ∨
    ∀ k ∈ path, Passed k := by
  induction path with
  | nil => exact .inr (.inr fun k hk => absurd hk List.not_mem_nil)
  | cons k path ih =>
    have hhere : ComesTo (k :: path) k := ⟨[], path, rfl, fun j hj => absurd hj List.not_mem_nil⟩
    cases hacpi : k.obj.has .acpi with
    | true => exact .inl ⟨k, hhere, hacpi⟩
    | false =>
      by_cases hty : k.ty = .ae
      · exact .inr (.inl ⟨k, hhere, hacpi, hty⟩)
      · have hk : Passed k := ⟨hacpi, hty⟩
        rcases ih with ⟨m, hm, h⟩ | ⟨m, hm, h⟩ | hall
        · exact .inl ⟨m, hm.cons hk, h⟩
        · exact .inr (.inl ⟨m, hm.cons hk, h⟩)
        · exact .inr (.inr (List.forall_mem_cons.mpr ⟨hk, hall⟩))

/-! ## The decision -/

/-- A right to a resource that is no policy; `policy` says what a node with an `acpi` gives. -/
inductive Opened (now : CStr) (s : Server) (req : Req) (op : Operation) (p : Ptr) (n : RTNode)
    (policy : RTNode → Prop) : Prop
  | registree : op ≠ .create → n.ty = .csr → n.obj.str .csi = some req.fr → Opened now s req op p n policy
  | original {lnk : CStr} : op = .update ∨ op = .delete → isAnnounced n.ty = true → n.obj.str .lnk = some lnk →
      checkResourceCseID lnk req.fr = true → Opened now s req op p n policy
  | copy {ast entry : Json} {uri : CStr} : op = .update → n.obj.get .ast = some ast → ast.valueint = 2 →
      entry ∈ n.obj.arr .at → entry.valuestring = some uri → checkResourceCseID uri req.fr = true →
      Opened now s req op p n policy
  | policy {m : RTNode} : ComesTo (s.ancestry p) m → m.obj.has .acpi = true → policy m → Opened now s req op p n policy
  | owner {ae : RTNode} : ComesTo (s.ancestry p) ae → ae.obj.has .acpi = false → ae.ty = .ae → ae.ri = some req.fr →
      Opened now s req op p n policy
  | creator : (∀ k ∈ s.ancestry p, Passed k) → n.obj.str .cr = some req.fr → Opened now s req op p n policy

/-- Who has a right to a resource. -/
def Granted (now : CStr) (s : Server) (req : Req) (op : Operation) (p : Ptr) (n : RTNode) (policy : RTNode → Prop) : Prop :=
  (¬ Real req.fr ∧ req.op = .create ∧ req.ty = ResourceType.ae.code) ∨
  (Real req.fr ∧ n.ty = .acp ∧ ∀ o ∈ needed req op, s.Gives now req .pvs n o) ∨
  (Real req.fr ∧ n.ty ≠ .acp ∧ Opened now s req op p n policy)

theorem anyString_iff {f : CStr → Bool} {l : List Json} {b : Bool} (h : anyString f l = some b) :
    b = true ↔ ∃ j ∈ l, ∃ x, j.valuestring = some x ∧ f x = true := by
  induction l with
  | nil =>
    cases h
    simp
  | cons j l ih =>
    simp only [anyString, Option.bind_eq_bind, Option.bind_eq_some_iff] at h
    obtain ⟨x, hx, h⟩ := h
    by_cases hf : f x = true
    · rw [if_pos hf] at h
      cases h
      exact ⟨fun _ => ⟨j, List.mem_cons_self, x, hx, hf⟩, fun _ => rfl⟩
    · rw [if_neg hf] at h
      rw [ih h]
      constructor
      · rintro ⟨k, hk, y, hy, hfy⟩
        exact ⟨k, List.mem_cons_of_mem _ hk, y, hy, hfy⟩
      · rintro ⟨k, hk, y, hy, hfy⟩
        rcases List.mem_cons.mp hk with rfl | hk
        · cases hx.symm.trans hy
          exact absurd hfy hf
        · exact ⟨k, hk, y, hy, hfy⟩

theorem opToAcop_inj {op op' : Operation} : opToAcop op = opToAcop op' ↔ op = op' := by
  cases op <;> cases op' <;> decide

namespace Server

variable {now : CStr} {s : Server}

/-- The first test of `shortcut`: the originator is the CSE the resource registers. -/
def isRegistree (origin : CStr) (acop : Acop) (n : RTNode) : Option Bool :=
  if acop ≠ .create ∧ n.ty = .csr then (n.obj.str .csi).map fun csi => decide (origin = csi) else some false

/-- The second test: the originator is the CSE of the original resource. -/
def isOriginal (req : Req) (acop : Acop) (n : RTNode) : Option Bool :=
  if acop ≠ .create ∧ isAnnounced n.ty = true then
    (n.obj.str .lnk).map fun lnk => (acop = .update || acop = .delete) && checkResourceCseID lnk req.fr
  else some false

/-- The third test: the originator is a CSE the resource announces itself to, both ways. -/
def isCopy (req : Req) (acop : Acop) (n : RTNode) : Option Bool :=
  match n.obj.get .ast with
  | none => some false
  | some ast =>
    if acop = .update ∧ ast.valueint = 2 then anyString (checkResourceCseID · req.fr) (n.obj.arr .at) else some false

theorem shortcut_eq (req : Req) (origin : CStr) (acop : Acop) (n : RTNode) :
    shortcut req origin acop n = (isRegistree origin acop n).bind fun a => (isOriginal req acop n).bind fun b =>
      if a || b then some true else isCopy req acop n := by
  unfold shortcut isRegistree isOriginal isCopy
  by_cases hcsr : acop ≠ .create ∧ n.ty = .csr <;> by_cases hann : acop ≠ .create ∧ isAnnounced n.ty = true
  · simp only [if_pos hcsr, if_pos hann]
    cases n.obj.str .csi <;> cases n.obj.str .lnk <;> rfl
  · simp only [if_pos hcsr, if_neg hann]
    cases n.obj.str .csi <;> rfl
  · simp only [if_neg hcsr, if_pos hann]
    cases n.obj.str .lnk <;> rfl
  · simp only [if_neg hcsr, if_neg hann]
    rfl

theorem isRegistree_iff {origin : CStr} {op : Operation} {n : RTNode} {b : Bool}
    (h : isRegistree origin (opToAcop op) n = some b) :
    b = true ↔ op ≠ .create ∧ n.ty = .csr ∧ n.obj.str .csi = some origin := by
  have hc : opToAcop op ≠ .create ↔ op ≠ .create := not_congr (@opToAcop_inj op .create)
  unfold isRegistree at h
  simp only [hc] at h
  split at h
  · rename_i hcsr
    obtain ⟨csi, hcsi, rfl⟩ := Option.map_eq_some_iff.mp h
    rw [decide_eq_true_eq, hcsi, Option.some_inj]
    exact ⟨fun h => ⟨hcsr.1, hcsr.2, h.symm⟩, fun h => h.2.2.symm⟩
  · rename_i hcsr
    cases h
    exact ⟨fun h => Bool.noConfusion h, fun h => absurd ⟨h.1, h.2.1⟩ hcsr⟩

theorem isOriginal_iff {req : Req} {op : Operation} {n : RTNode} {b : Bool}
    (h : isOriginal req (opToAcop op) n = some b) :
    b = true ↔ (op = .update ∨ op = .delete) ∧ isAnnounced n.ty = true ∧
      ∃ lnk, n.obj.str .lnk = some lnk ∧ checkResourceCseID lnk req.fr = true := by
  have hc : opToAcop op ≠ .create ↔ op ≠ .create := not_congr (@opToAcop_inj op .create)
  have hu : opToAcop op = .update ↔ op = .update := @opToAcop_inj op .update
  have hd : opToAcop op = .delete ↔ op = .delete := @opToAcop_inj op .delete
  unfold isOriginal at h
  simp only [hc, hu, hd] at h
  split at h
  · rename_i hann
    obtain ⟨lnk, hlnk, rfl⟩ := Option.map_eq_some_iff.mp h
    simp only [Bool.and_eq_true, Bool.or_eq_true, decide_eq_true_eq, hlnk, Option.some_inj]
    constructor
    · rintro ⟨hop, hcse⟩
      exact ⟨hop, hann.2, lnk, rfl, hcse⟩
    · rintro ⟨hop, -, lnk', rfl, hcse⟩
      exact ⟨hop, hcse⟩
  · rename_i hann
    cases h
    refine ⟨fun h => Bool.noConfusion h, fun h => absurd ⟨?_, h.2.1⟩ hann⟩
    rintro rfl
    rcases h.1 with h | h <;> cases h

theorem isCopy_iff {req : Req} {op : Operation} {n : RTNode} {b : Bool} (h : isCopy req (opToAcop op) n = some b) :
    b = true ↔ op = .update ∧ ∃ ast, n.obj.get .ast = some ast ∧ ast.valueint = 2 ∧
      ∃ entry ∈ n.obj.arr .at, ∃ uri, entry.valuestring = some uri ∧ checkResourceCseID uri req.fr = true := by
  have hu : opToAcop op = .update ↔ op = .update := @opToAcop_inj op .update
  unfold isCopy at h
  cases hast : n.obj.get .ast with
  | none =>
    rw [hast] at h
    cases h
    simp
  | some ast =>
    simp only [hast, hu] at h
    split at h
    · rename_i hbi
      rw [anyString_iff h]
      constructor
      · intro hany
        exact ⟨hbi.1, ast, rfl, hbi.2, hany⟩
      · rintro ⟨-, ast', hast', -, hany⟩
        exact hany
    · rename_i hbi
      cases h
      refine ⟨fun h => Bool.noConfusion h, ?_⟩
      rintro ⟨hop, ast', hast', hv, -⟩
      cases hast'
      exact absurd ⟨hop, hv⟩ hbi

/-- The shortcuts are rights of the CSEs a resource is about. -/
theorem shortcut_iff {req : Req} {op : Operation} {n : RTNode} {b : Bool}
    (h : shortcut req req.fr (opToAcop op) n = some b) :
    b = true ↔ (op ≠ .create ∧ n.ty = .csr ∧ n.obj.str .csi = some req.fr) ∨
      ((op = .update ∨ op = .delete) ∧ isAnnounced n.ty = true ∧
        ∃ lnk, n.obj.str .lnk = some lnk ∧ checkResourceCseID lnk req.fr = true) ∨
      (op = .update ∧ ∃ ast, n.obj.get .ast = some ast ∧ ast.valueint = 2 ∧
        ∃ entry ∈ n.obj.arr .at, ∃ uri, entry.valuestring = some uri ∧ checkResourceCseID uri req.fr = true) := by
  simp only [shortcut_eq, Option.bind_eq_some_iff] at h
  obtain ⟨reg, hreg, orig, horig, h⟩ := h
  rw [← isRegistree_iff hreg, ← isOriginal_iff horig]
  split at h
  · rename_i hor
    cases h
    rw [Bool.or_eq_true] at hor
    exact ⟨fun _ => hor.elim .inl fun h => .inr (.inl h), fun _ => rfl⟩
  · rename_i hor
    rw [Bool.or_eq_true, not_or] at hor
    rw [← isCopy_iff h]
    exact ⟨fun h => .inr (.inr h), fun h => (h.resolve_left hor.1).resolve_left hor.2⟩

/-- What the governing node opens. -/
theorem policyAllows_iff {req : Req} {op : Operation} {p : Ptr} {n : RTNode} {b : Bool} (hfr : req.fr ≠ adminAeId)
    (h : s.policyAllows now req req.fr (wantedAcop req (opToAcop op)) p n = some b) :
    b = true ↔ (∃ m, ComesTo (s.ancestry p) m ∧ m.obj.has .acpi = true ∧ s.OwnPvs now req op m) ∨
      (∃ ae, ComesTo (s.ancestry p) ae ∧ ae.obj.has .acpi = false ∧ ae.ty = .ae ∧ ae.ri = some req.fr) ∨
      ((∀ k ∈ s.ancestry p, Passed k) ∧ n.obj.str .cr = some req.fr) := by
  unfold Server.policyAllows at h
  -- `governing` tells the three ends of the search apart
  rcases governing_cases (s.ancestry p) with ⟨m, hm, hacpi⟩ | ⟨ae, hae, hacpi, hty⟩ | hall
  · have hg := governing_acpi hm hacpi
    rw [hg] at h
    obtain ⟨g, hacop, rfl⟩ := Option.map_eq_some_iff.mp h
    rw [getAcop_covers hfr hacpi hacop]
    constructor
    · intro hpol
      exact .inl ⟨m, hm, hacpi, hpol⟩
    · rintro (⟨m', hm', hacpi', hpol⟩ | ⟨ae, hae, hno, hty, -⟩ | ⟨hall, -⟩)
      · cases hg.symm.trans (governing_acpi hm' hacpi')
        exact hpol
      · cases hg.symm.trans (governing_owner hae hno hty)
      · cases hg.symm.trans (governing_creator hall)
  · have hg := governing_owner hae hacpi hty
    rw [hg] at h
    cases h
    rw [decide_eq_true_eq]
    constructor
    · intro hri
      exact .inr (.inl ⟨ae, hae, hacpi, hty, hri⟩)
    · rintro (⟨m, hm, hacpi', -⟩ | ⟨ae', hae', hno, hty', hri⟩ | ⟨hall, -⟩)
      · cases hg.symm.trans (governing_acpi hm hacpi')
      · cases hg.symm.trans (governing_owner hae' hno hty')
        exact hri
      · cases hg.symm.trans (governing_creator hall)
  · have hg := governing_creator hall
    rw [hg] at h
    cases h
    rw [decide_eq_true_eq]
    constructor
    · intro hcr
      exact .inr (.inr ⟨hall, hcr⟩)
    · rintro (⟨m, hm, hacpi, -⟩ | ⟨ae, hae, hno, hty, -⟩ | ⟨-, hcr⟩)
      · cases hg.symm.trans (governing_acpi hm hacpi)
      · cases hg.symm.trans (governing_owner hae hno hty)
      · exact hcr

/-- What the shortcuts and the governing node open, on a resource that is no policy. -/
theorem opened_iff {req : Req} {op : Operation} {p : Ptr} {n : RTNode} {short b : Bool} (hfr : req.fr ≠ adminAeId)
    (hs : shortcut req req.fr (opToAcop op) n = some short)
    (hb : short = false → s.policyAllows now req req.fr (wantedAcop req (opToAcop op)) p n = some b)
    (ht : short = true → b = true) : b = true ↔ Opened now s req op p n (s.OwnPvs now req op) := by
  constructor
  · intro h
    cases short with
    | true =>
      rcases (shortcut_iff hs).mp rfl with ⟨hop, hty, hcsi⟩ | ⟨hop, hann, lnk, hlnk, hcse⟩ |
          ⟨hop, ast, hast, hv, entry, hentry, uri, huri, hcse⟩
      · exact .registree hop hty hcsi
      · exact .original hop hann hlnk hcse
      · exact .copy hop hast hv hentry huri hcse
    | false =>
      rcases (policyAllows_iff hfr (hb rfl)).mp h with ⟨m, hm, hacpi, hpol⟩ | ⟨ae, hae, hacpi, hty, hri⟩ | ⟨hall, hcr⟩
      · exact .policy hm hacpi hpol
      · exact .owner hae hacpi hty hri
      · exact .creator hall hcr
  · intro h
    by_cases hshort : short = true
    · exact ht hshort
    have hpol := policyAllows_iff hfr (hb (by rwa [Bool.not_eq_true] at hshort))
    rw [shortcut_iff hs] at hshort
    cases h with
    | registree hop hty hcsi => exact absurd (.inl ⟨hop, hty, hcsi⟩) hshort
    | original hop hann hlnk hcse => exact absurd (.inr (.inl ⟨hop, hann, _, hlnk, hcse⟩)) hshort
    | copy hop hast hv hentry huri hcse => exact absurd (.inr (.inr ⟨hop, _, hast, hv, _, hentry, _, huri, hcse⟩)) hshort
    | policy hm hacpi hg => exact hpol.mpr (.inl ⟨_, hm, hacpi, hg⟩)
    | owner hae hacpi hty hri => exact hpol.mpr (.inr (.inl ⟨_, hae, hacpi, hty, hri⟩))
    | creator hall hcr => exact hpol.mpr (.inr (.inr ⟨hall, hcr⟩))

/-! ## Above the governing node -/

/-- Two servers have the same policies and groups, under every address. -/
structure SamePolicies (now : CStr) (s s' : Server) : Prop where
  policies : ∀ entry, s'.policyNode now entry = s.policyNode now entry
  groups : ∀ acor origin, s'.acorMatchesGroupMember now acor origin = s.acorMatchesGroupMember now acor origin

theorem SamePolicies.ruleAcop {s' : Server} (h : SamePolicies now s s') (ip : Option CStr) (origin : CStr) :
    s'.ruleAcop now ip origin = s.ruleAcop now ip origin := by
  have hacor : s'.acorMatches now origin = s.acorMatches now origin := by
    funext acor
    unfold acorMatches
    simp only [h.groups]
  funext acr
  unfold Server.ruleAcop
  rw [hacor]

theorem SamePolicies.getAcopOrigin {s' : Server} (h : SamePolicies now s s') (ip : Option CStr) (origin : CStr)
    (acp : RTNode) (self : Bool) :
    s'.getAcopOrigin now ip origin acp self = s.getAcopOrigin now ip origin acp self := by
  unfold Server.getAcopOrigin
  rw [h.ruleAcop]

theorem SamePolicies.getAcop {s' : Server} (h : SamePolicies now s s') (ip : Option CStr) (origin : CStr) (m : RTNode) :
    s'.getAcop now ip origin m = s.getAcop now ip origin m := by
  have hnodes : s'.policyNodes now = s.policyNodes now := by
    funext l
    unfold Server.policyNodes
    rw [funext h.policies]
  have hunion : s'.unionAcop now ip origin = s.unionAcop now ip origin := by
    funext l
    unfold Server.unionAcop
    simp only [h.getAcopOrigin]
  unfold Server.getAcop
  rw [h.getAcopOrigin, hnodes, hunion]

/-- The paths of a resource in two trees agree up to the node that governs. -/
def SameBelow (path path' : List RTNode) : Prop :=
  ∃ below m above above', path = below ++ m :: above ∧ path' = below ++ m :: above' ∧ (∀ k ∈ below, Passed k) ∧ ¬ Passed m

theorem SameBelow.governing {path path' : List RTNode} (h : SameBelow path path') :
    TinyIoT.governing path' = TinyIoT.governing path := by
  obtain ⟨below, m, above, above', rfl, rfl, hb, hm⟩ := h
  rw [governing_append hb, governing_append hb]
  cases hacpi : m.obj.has .acpi with
  | true => rw [TinyIoT.governing, TinyIoT.governing, if_pos hacpi, if_pos hacpi]
  | false =>
    have hty : m.ty = .ae := by
      by_contra hty
      exact hm ⟨hacpi, hty⟩
    rw [TinyIoT.governing, TinyIoT.governing, hacpi, if_neg Bool.false_ne_true, if_neg Bool.false_ne_true, if_pos hty,
      if_pos hty]

/-- Nodes above the one that governs make no difference. -/
theorem checkPrivilege_above {s' : Server} {p : Ptr} (hd : p.deref s' = p.deref s) (hpol : SamePolicies now s s')
    (hpath : SameBelow (s.ancestry p) (s'.ancestry p)) (req : Req) (acop : Acop) :
    s'.checkPrivilege now req p acop = s.checkPrivilege now req p acop := by
  unfold Server.checkPrivilege Server.policyAllows
  simp only [hd, hpath.governing, hpol.getAcop, hpol.getAcopOrigin, normalizedOriginator_eq]

end Server

/-! ## The decision of everybody but the administrator -/

/-- `check_privilege` decides as `Granted` says, with `policy` for what a node with an `acpi` gives, and
what stands above the node that governs makes no difference, where the check is not one of the `spared`. -/
def Decided (policy : CStr → Server → Req → Operation → RTNode → Prop) (spared : CStr → Server → Req → Ptr → Bool) : Prop :=
  ∀ now s req p n op b, Ptr.deref s p = some n → req.fr ≠ adminAeId → spared now s req p = false →
    Server.privileged now s req p (opToAcop op) = some b →
    (b = true ↔ Granted now s req op p n (policy now s req op)) ∧
    ∀ s' b', p.deref s' = some n → Server.SamePolicies now s s' → Server.SameBelow (s.ancestry p) (s'.ancestry p) →
      spared now s' req p = false → s'.privileged now req p (opToAcop op) = some b' → b' = b

/-- Who `check_privilege` lets through, when no address it looks up names an expired resource. -/
theorem checkPrivilege_iff {now : CStr} {s : Server} {req : Req} {p : Ptr} {n : RTNode} {op : Operation} {b : Bool}
    (hp : p.deref s = some n) (hfr : req.fr ≠ adminAeId) (hset : s.looksSettled now req.fr p = true)
    (h : s.privileged now req p (opToAcop op) = some b) :
    (b = true ↔ Granted now s req op p n (s.OwnPvs now req op)) ∧
    ∀ s' b', p.deref s' = some n → Server.SamePolicies now s s' → Server.SameBelow (s.ancestry p) (s'.ancestry p) →
      s'.looksSettled now req.fr p = true → s'.privileged now req p (opToAcop op) = some b' → b' = b := by
  have h := Server.privileged_settled hset h
  refine ⟨?_, fun s' b' hp' hpol hpath hset' h' => ?_⟩
  · unfold Server.checkPrivilege at h
    simp only [hp, if_neg hfr, Server.normalizedOriginator_eq] at h
    unfold Granted
    by_cases hreal : Real req.fr
    · have hno : ¬ (req.fr = [] ∨ req.fr = ['C']) := by
        rintro (h | h)
        · exact hreal.1 h
        · exact hreal.2 h
      rw [if_neg hno] at h
      by_cases hty : n.ty = .acp
      · rw [if_pos hty] at h
        obtain ⟨g, hg, rfl⟩ := Option.map_eq_some_iff.mp h
        rw [covers_wanted, forall₂_congr fun o _ => Server.getAcopOrigin_covers hfr hg o]
        simp [hreal, hty]
      · rw [if_neg hty] at h
        have hopen : b = true ↔ Opened now s req op p n (s.OwnPvs now req op) := by
          rw [Option.bind_eq_bind, Option.bind_eq_some_iff] at h
          obtain ⟨short, hs, h⟩ := h
          refine Server.opened_iff hfr hs (fun hshort => ?_) (fun hshort => ?_)
          · subst hshort
            exact h
          · subst hshort
            cases h
            rfl
        simp [hreal, hty, hopen]
    · have hyes : req.fr = [] ∨ req.fr = ['C'] := by
        unfold Real at hreal
        tauto
      rw [if_pos hyes] at h
      cases h
      simp [hreal]
  · have h' := Server.privileged_settled hset' h'
    rw [Server.checkPrivilege_above (hp'.trans hp.symm) hpol hpath, h] at h'
    exact (Option.some.inj h').symm

/-! ## A policy with an `acpi` -/

/-- A policy for everybody, a policy for the administrator whose `acpi` names the first, a container
whose `acpi` does, and a subscription below the second policy. -/
def policedTree : Option Server := do
  let s ← boot firstDay
  let cb ← s.node? 0
  let acp (id : Nat) (rn ri : String) (acor : CStr) (more : Obj) : Option RTNode :=
    createRtnode id ([(.rn, .str rn.toList), (.ri, .str ri.toList), (.pi, .str cseBaseRi),
      (.pv, .obj [(.acr, .arr [acrEntry [acor] allAcop])]),
      (.pvs, .obj [(.acr, .arr [acrEntry [adminAeId] allAcop])])] ++ more) .acp
  let toOpen : Obj := [(.acpi, .arr [.str "TinyIoT/open".toList])]
  let s := s.addChildResourceTree cb (← acp 2 "open" "1-1" "all".toList [])
  let guard ← acp 3 "guard" "1-2" adminAeId toOpen
  let s := s.addChildResourceTree cb guard
  let cnt ← createRtnode 4 ([(.rn, .str "c".toList), (.ri, .str "3-1".toList), (.pi, .str cseBaseRi)] ++ toOpen) .cnt
  let s := s.addChildResourceTree cb cnt
  let sub ← createRtnode 5 [(.rn, .str "s".toList), (.ri, .str "23-1".toList), (.pi, .str "1-2".toList)] .sub
  return s.addChildResourceTree guard sub

/-- Where the search ends at an `acpi`, the node that has it. -/
def Policy.acpi? : Policy → Option RTNode
  | .acpi n => some n
  | _ => none

theorem comesTo_of_governing {path : List RTNode} {m : RTNode} (h : (governing path).acpi? = some m) :
    ComesTo path m ∧ m.obj.has .acpi = true := by
  rcases governing_cases path with ⟨m', hm, hacpi⟩ | ⟨ae, hae, hacpi, hty⟩ | hall
  · rw [governing_acpi hm hacpi] at h
    cases h
    exact ⟨hm, hacpi⟩
  · rw [governing_owner hae hacpi hty] at h
    cases h
  · rw [governing_creator hall] at h
    cases h

/-- Everybody retrieves the container under the open policy. -/
theorem checkPrivilege_iff_open : ∃ s n, policedTree = some s ∧ (Ptr.inTree 4).deref s = some n ∧
    ((true = true ↔ Granted firstDay.now s (strangerReq .retrieve .cnt) .retrieve (.inTree 4) n
      (s.OwnPvs firstDay.now (strangerReq .retrieve .cnt) .retrieve)) ∧
    ∀ s' b', (Ptr.inTree 4).deref s' = some n → Server.SamePolicies firstDay.now s s' →
      Server.SameBelow (s.ancestry (.inTree 4)) (s'.ancestry (.inTree 4)) →
      s'.looksSettled firstDay.now (strangerReq .retrieve .cnt).fr (.inTree 4) = true →
      s'.privileged firstDay.now (strangerReq .retrieve .cnt) (.inTree 4) (opToAcop .retrieve) = some b' → b' = true) := by
  have hrun : policedTree.any (fun s => ((Ptr.inTree 4).deref s).isSome &&
      s.looksSettled firstDay.now (strangerReq .retrieve .cnt).fr (.inTree 4) &&
      decide (s.privileged firstDay.now (strangerReq .retrieve .cnt) (.inTree 4) (opToAcop .retrieve) = some true)) =
      true := by decide +kernel
  obtain ⟨s, hs, h⟩ := (Option.any_eq_true _ _).mp hrun
  rw [Bool.and_eq_true, Bool.and_eq_true, decide_eq_true_eq] at h
  obtain ⟨n, hn⟩ := Option.isSome_iff_exists.mp h.1.1
  exact ⟨s, n, hs, hn, checkPrivilege_iff hn (by decide) h.1.2 h.2⟩

/-- One policy of an `acpi` gives a stranger the right to retrieve. -/
def openToStrangers (s : Server) (req : Req) (m : RTNode) : Bool :=
  (s.acpiPolicies firstDay.now m).any fun acp => (rules acp.obj .pv).any fun acr =>
    decide (anyString (s.acorMatches firstDay.now req.fr) (originators acr) = some true) &&
    decide (checkAcco (acr.member .acco) req.ip = some true) &&
    (acr.member .acop).any fun acop => Acop.covers (BitVec.ofInt 32 acop.valueint) (opToAcop .retrieve)

theorem unitedPv_of_openToStrangers {s : Server} {req : Req} {m : RTNode} (hop : req.op = .retrieve)
    (h : openToStrangers s req m = true) : s.UnitedPv firstDay.now req .retrieve m := by
  obtain ⟨acp, hacp, h⟩ := List.any_eq_true.mp h
  obtain ⟨acr, hacr, h⟩ := List.any_eq_true.mp h
  rw [Bool.and_eq_true, Bool.and_eq_true, decide_eq_true_eq, decide_eq_true_eq] at h
  obtain ⟨⟨hacor, hacco⟩, h⟩ := h
  obtain ⟨acop, hacop, hcov⟩ := (Option.any_eq_true _ _).mp h
  refine .inl ⟨List.ne_nil_of_mem hacp, fun o ho => ?_⟩
  rw [show needed req .retrieve = [.retrieve] by simp [needed, hop]] at ho
  rw [List.mem_singleton.mp ho]
  exact ⟨acp, hacp, acr, hacr, ⟨hacor, hacco⟩, acop, hacop, hcov⟩

/-- A resource a stranger is not let at, although a policy the governing `acpi` names is open to strangers. -/
def lockedUnderOpen (s : Server) (req : Req) (p : Ptr) (n m : RTNode) : Bool :=
  decide (n.ty ≠ .acp) && decide (s.privileged firstDay.now req p (opToAcop .retrieve) = some false) &&
    openToStrangers s req m

/-- The policy an `acpi` of a policy names gives everybody everything, and yet a stranger does not
retrieve the subscription below: what decides there is the `pvs`. And of two policies that govern a container the
second, open to everybody, is not found: the rules of the first name an expired AE above it. -/
theorem not_decided_unitedPv :
    ¬ Decided (fun now s req op => s.UnitedPv now req op) (fun now s req p => !s.looksSettled now req.fr p) ∧
    ¬ Decided (fun now s req op => s.OwnPvs now req op) fun _ _ _ _ => false := by
  have hrun : policedTree.any (fun s => ((Ptr.inTree 5).deref s).any fun n =>
      s.looksSettled firstDay.now (strangerReq .retrieve .sub).fr (.inTree 5) &&
      (governing (s.ancestry (.inTree 5))).acpi?.any fun m => lockedUnderOpen s (strangerReq .retrieve .sub) (.inTree 5) n m) =
      true := by decide +kernel
  have hshaded : shadedContainer.any (fun s => ((Ptr.inTree 5).deref s).any fun n =>
      (governing (s.ancestry (.inTree 5))).acpi?.any fun m => decide (m.ty ≠ .acp) &&
        lockedUnderOpen s (strangerReq .retrieve .cnt) (.inTree 5) n m) = true := by decide +kernel
  constructor
  · intro hall
    obtain ⟨s, -, h⟩ := (Option.any_eq_true _ _).mp hrun
    obtain ⟨n, hn, h⟩ := (Option.any_eq_true _ _).mp h
    rw [Bool.and_eq_true] at h
    obtain ⟨hset, h⟩ := h
    obtain ⟨m, hm, h⟩ := (Option.any_eq_true _ _).mp h
    unfold lockedUnderOpen at h
    rw [Bool.and_eq_true, Bool.and_eq_true, decide_eq_true_eq, decide_eq_true_eq] at h
    obtain ⟨⟨hty, hden⟩, hopen⟩ := h
    obtain ⟨hcome, hacpi⟩ := comesTo_of_governing hm
    have hreal : Real (strangerReq .retrieve .sub).fr := by decide
    have hgives := unitedPv_of_openToStrangers rfl hopen
    have := (hall _ _ _ _ _ _ _ hn (by decide) (by dsimp only; rw [hset]; rfl) hden).1.mpr
      (.inr (.inr ⟨hreal, hty, .policy hcome hacpi hgives⟩))
    cases this
  · intro hall
    obtain ⟨s, -, h⟩ := (Option.any_eq_true _ _).mp hshaded
    obtain ⟨n, hn, h⟩ := (Option.any_eq_true _ _).mp h
    obtain ⟨m, hm, h⟩ := (Option.any_eq_true _ _).mp h
    rw [Bool.and_eq_true, decide_eq_true_eq] at h
    obtain ⟨hmty, h⟩ := h
    unfold lockedUnderOpen at h
    rw [Bool.and_eq_true, Bool.and_eq_true, decide_eq_true_eq, decide_eq_true_eq] at h
    obtain ⟨⟨hty, hden⟩, hopen⟩ := h
    obtain ⟨hcome, hacpi⟩ := comesTo_of_governing hm
    have hreal : Real (strangerReq .retrieve .cnt).fr := by decide
    have hgives : s.OwnPvs firstDay.now (strangerReq .retrieve .cnt) .retrieve m := by
      unfold Server.OwnPvs
      rw [if_neg hmty]
      exact unitedPv_of_openToStrangers rfl hopen
    have := (hall _ _ _ _ _ _ _ hn (by decide) rfl hden).1.mpr (.inr (.inr ⟨hreal, hty, .policy hcome hacpi hgives⟩))
    cases this

end TinyIoT
