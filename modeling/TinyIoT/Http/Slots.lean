/-
The connections of the HTTP server: the loop of `serve_forever` takes a connection into a free slot of `clients`, starts a
thread for the slot and looks for the next free one, while each `respond_thread` uses what is in its slot, closes it and
then frees the slot. In every interleaving a thread uses and closes its own connection only, each connection is closed
once, and neither a connection nor a slot is lost.

A descriptor number is free again as soon as it is closed, so the next connection may get the one that a thread has closed
but not yet taken out of its slot. The reads and writes of `clients` are atomic, and a thread can always be made.
-/
import Mathlib.Data.List.Nodup
import TinyIoT.Lib.Reach

namespace TinyIoT

namespace HttpServer

def maxConnections : Nat := 1024

abbrev Slot := Fin maxConnections

/-- `(slot + 1) % MAX_CONNECTIONS`. -/
def Slot.next (s : Slot) : Slot := ⟨(s.val + 1) % maxConnections, Nat.mod_lt _ (by decide)⟩

/-- A `respond_thread`, with the connection it was made for; it has called `close` or not. -/
structure Worker where
  conn : Nat
  slot : Slot
  closed : Bool

/-- Where the loop is: before `accept`, before `pthread_create` for a connection, or at the search for a free slot. -/
inductive Loop where
  | accepting
  | starting (conn : Nat)
  | searching
  deriving DecidableEq, Repr

/-- Something done with a descriptor by the thread of a connection, and the connection the descriptor stands for then. -/
structure Event where
  conn : Nat
  owner : Option Nat
  closes : Bool
  deriving DecidableEq, Repr

structure Pool where
  /-- The descriptors in the slots; none for -1. -/
  clients : Slot → Option Nat
  slot : Slot
  loop : Loop
  workers : List Worker
  /-- The connections of the open descriptors. -/
  owner : Nat → Option Nat
  /-- How many connections there have been. They are numbered from 0. -/
  accepted : Nat
  log : List Event

/-- One atomic step, of the loop or of the thread of a connection. -/
inductive Action where
  | accept (fd : Nat)
  | acceptFails
  | start
  | search
  | use (conn : Nat)
  | close (conn : Nat)
  | free (conn : Nat)

namespace Pool

def initial : Pool := ⟨fun _ => none, ⟨0, by decide⟩, .accepting, [], fun _ => none, 0, []⟩

/-- The connection that the descriptor in a slot stands for. -/
def behind (p : Pool) (s : Slot) : Option Nat := (p.clients s).bind p.owner

def worker (p : Pool) (c : Nat) : Option Worker := p.workers.find? fun w => w.conn = c

def step (p : Pool) : Action → Option Pool
  | .accept fd =>
    if p.loop = .accepting ∧ p.owner fd = none then
      some { p with
        clients := Function.update p.clients p.slot (some fd)
        owner := Function.update p.owner fd (some p.accepted)
        accepted := p.accepted + 1
        loop := .starting p.accepted }
    else none
  | .acceptFails =>
    if p.loop = .accepting then
      some { p with clients := Function.update p.clients p.slot none, loop := .searching }
    else none
  | .start =>
    match p.loop with
    | .starting c => some { p with workers := ⟨c, p.slot, false⟩ :: p.workers, loop := .searching }
    | _ => none
  | .search =>
    if p.loop = .searching then
      some (if p.clients p.slot = none then { p with loop := .accepting } else { p with slot := p.slot.next })
    else none
  | .use c =>
    (p.worker c).bind fun w =>
      if w.closed then none else some { p with log := ⟨c, p.behind w.slot, false⟩ :: p.log }
  | .close c =>
    (p.worker c).bind fun w =>
      if w.closed then none
      else some { p with
        log := ⟨c, p.behind w.slot, true⟩ :: p.log
        owner := match p.clients w.slot with
          | none => p.owner
          | some fd => Function.update p.owner fd none
        workers := p.workers.map fun x => if x.conn = c then { x with closed := true } else x }
  | .free c =>
    (p.worker c).bind fun w =>
      if w.closed then
        some { p with
          clients := Function.update p.clients w.slot none
          workers := p.workers.filter fun x => x.conn ≠ c }
      else none

/-- The connections that were closed, by whatever thread. -/
def closings (p : Pool) : List Nat := (p.log.filter Event.closes).map Event.conn

/-- The slots and connections of the threads, what is in the slots, and where the connections are. -/
structure Orderly (p : Pool) : Prop where
  slots : (p.workers.map Worker.slot).Nodup
  conns : (p.workers.map Worker.conn).Nodup
  mine : ∀ w ∈ p.workers, ∃ fd, p.clients w.slot = some fd ∧ (w.closed = false → p.owner fd = some w.conn)
  accepting : p.loop = .accepting → p.clients p.slot = none
  starting : ∀ c, p.loop = .starting c → p.behind p.slot = some c ∧ p.slot ∉ p.workers.map Worker.slot ∧
    c ∉ p.workers.map Worker.conn ∧ c ∉ p.closings
  taken : ∀ s, p.clients s ≠ none → s ∈ p.workers.map Worker.slot ∨ ∃ c, p.loop = .starting c ∧ s = p.slot
  events : ∀ e ∈ p.log, e.owner = some e.conn
  once : p.closings.Nodup
  done : ∀ w ∈ p.workers, w.closed = true ↔ w.conn ∈ p.closings
  all : ∀ c, c < p.accepted ↔ c ∈ p.closings ∨ (∃ w ∈ p.workers, w.conn = c ∧ w.closed = false) ∨ p.loop = .starting c

variable {p p' : Pool} {c : Nat} {w : Worker}

theorem worker_mem (h : p.worker c = some w) : w ∈ p.workers ∧ w.conn = c :=
  ⟨List.mem_of_find?_eq_some h, by simpa using List.find?_some h⟩

namespace Orderly

theorem eq_of_conn (h : p.Orderly) {w' : Worker} (hw : w ∈ p.workers) (hw' : w' ∈ p.workers) (he : w.conn = w'.conn) :
    w = w' := List.inj_on_of_nodup_map h.conns hw hw' he

theorem eq_of_slot (h : p.Orderly) {w' : Worker} (hw : w ∈ p.workers) (hw' : w' ∈ p.workers) (he : w.slot = w'.slot) :
    w = w' := List.inj_on_of_nodup_map h.slots hw hw' he

/-- A thread that has not closed its connection finds it in its slot. -/
theorem behind_eq (h : p.Orderly) (hw : w ∈ p.workers) (hc : w.closed = false) : p.behind w.slot = some w.conn := by
  obtain ⟨fd, hfd, hown⟩ := h.mine w hw
  unfold behind
  rw [hfd, Option.bind_some, hown hc]

theorem conn_lt (h : p.Orderly) (hw : w ∈ p.workers) : w.conn < p.accepted := by
  rw [h.all]
  cases hc : w.closed with
  | true => exact .inl ((h.done w hw).mp hc)
  | false => exact .inr (.inl ⟨w, hw, rfl, hc⟩)

theorem initial : Pool.initial.Orderly where
  slots := List.nodup_nil
  conns := List.nodup_nil
  mine := fun _ hw => nomatch hw
  accepting := fun _ => rfl
  starting := fun _ h => nomatch h
  taken := fun _ h => absurd rfl h
  events := fun _ he => nomatch he
  once := List.nodup_nil
  done := fun _ hw => nomatch hw
  all := fun c => by simp [Pool.initial, closings]

/-! ## The steps of the loop -/

theorem accept (h : p.Orderly) {fd : Nat} (hloop : p.loop = .accepting) (hfd : p.owner fd = none) :
    Orderly { p with
      clients := Function.update p.clients p.slot (some fd)
      owner := Function.update p.owner fd (some p.accepted)
      accepted := p.accepted + 1
      loop := .starting p.accepted } := by
  have hfree := h.accepting hloop
  have hslot : ∀ w ∈ p.workers, w.slot ≠ p.slot := by
    intro w hw he
    obtain ⟨fd', hfd', -⟩ := h.mine w hw
    rw [he, hfree] at hfd'
    cases hfd'
  refine ⟨h.slots, h.conns, fun w hw => ?_, fun hl => (nomatch hl), fun c hl => ?_, fun s hs => ?_, h.events, h.once,
    h.done,
    fun c => ?_⟩
  · obtain ⟨fd', hfd', hown⟩ := h.mine w hw
    refine ⟨fd', (Function.update_of_ne (hslot w hw) ..).trans hfd', fun hc => ?_⟩
    have hne : fd' ≠ fd := by
      rintro rfl
      rw [hown hc] at hfd
      cases hfd
    exact (Function.update_of_ne hne ..).trans (hown hc)
  · cases hl
    refine ⟨?_, ?_, ?_, ?_⟩
    · show (Function.update p.clients p.slot (some fd) p.slot).bind (Function.update p.owner fd (some p.accepted)) = _
      rw [Function.update_self, Option.bind_some, Function.update_self]
    · intro hm
      obtain ⟨w, hw, he⟩ := List.mem_map.mp hm
      exact hslot w hw he
    · intro hm
      obtain ⟨w, hw, he⟩ := List.mem_map.mp hm
      exact absurd (h.conn_lt hw) (by omega)
    · intro hm
      exact absurd ((h.all p.accepted).mpr (.inl hm)) (Nat.lt_irrefl _)
  · by_cases he : s = p.slot
    · exact .inr ⟨p.accepted, rfl, he⟩
    · have hs' : p.clients s ≠ none := fun hnone => hs ((Function.update_of_ne he ..).trans hnone)
      rcases h.taken s hs' with hin | ⟨c, hl, -⟩
      · exact .inl hin
      · rw [hloop] at hl
        cases hl
  · have hall := h.all c
    rw [hloop] at hall
    constructor
    · intro hlt
      have hlt' : c < p.accepted + 1 := hlt
      rcases Nat.lt_succ_iff_lt_or_eq.mp hlt' with hc | rfl
      · rcases hall.mp hc with hc | hc | hc
        · exact .inl hc
        · exact .inr (.inl hc)
        · cases hc
      · exact .inr (.inr rfl)
    · rintro (hc | hc | hc)
      · exact Nat.lt_succ_of_lt (hall.mpr (.inl hc))
      · exact Nat.lt_succ_of_lt (hall.mpr (.inr (.inl hc)))
      · cases hc
        exact Nat.lt_succ_self _

theorem acceptFails (h : p.Orderly) (hloop : p.loop = .accepting) :
    Orderly { p with clients := Function.update p.clients p.slot none, loop := .searching } := by
  have hsame : Function.update p.clients p.slot none = p.clients := by
    rw [← h.accepting hloop, Function.update_eq_self]
  rw [hsame]
  refine ⟨h.slots, h.conns, h.mine, fun hl => (nomatch hl), fun c hl => (nomatch hl), fun s hs => ?_, h.events, h.once,
    h.done,
    fun c => ?_⟩
  · rcases h.taken s hs with hin | ⟨c, hl, -⟩
    · exact .inl hin
    · rw [hloop] at hl
      cases hl
  · have hall := h.all c
    rw [hloop] at hall
    exact hall.trans (or_congr_right (or_congr_right (by simp)))

theorem start (h : p.Orderly) (hloop : p.loop = .starting c) :
    Orderly { p with workers := ⟨c, p.slot, false⟩ :: p.workers, loop := .searching } := by
  obtain ⟨hbehind, hslot, hconn, hopen⟩ := h.starting c hloop
  obtain ⟨fd, hfd, hown⟩ := Option.bind_eq_some_iff.mp hbehind
  refine ⟨List.nodup_cons.mpr ⟨hslot, h.slots⟩, List.nodup_cons.mpr ⟨hconn, h.conns⟩, fun w hw => ?_,
    fun hl => (nomatch hl), fun c hl => (nomatch hl), fun s hs => ?_, h.events, h.once, fun w hw => ?_, fun c' => ?_⟩
  · rcases List.mem_cons.mp hw with rfl | hw
    · exact ⟨fd, hfd, fun _ => hown⟩
    · exact h.mine w hw
  · rcases h.taken s hs with hin | ⟨c', -, rfl⟩
    · exact .inl (List.mem_cons_of_mem _ hin)
    · exact .inl List.mem_cons_self
  · rcases List.mem_cons.mp hw with rfl | hw
    · exact ⟨fun hc => (nomatch hc), fun hc => absurd hc hopen⟩
    · exact h.done w hw
  · refine (h.all c').trans (or_congr_right ?_)
    rw [hloop]
    constructor
    · rintro (⟨w, hw, hwc⟩ | hc)
      · exact .inl ⟨w, List.mem_cons_of_mem _ hw, hwc⟩
      · cases hc
        exact .inl ⟨_, List.mem_cons_self, rfl, rfl⟩
    · rintro (⟨w, hw, hwc, hcl⟩ | hc)
      · rcases List.mem_cons.mp hw with rfl | hw
        · exact .inr (congrArg Loop.starting hwc)
        · exact .inl ⟨w, hw, hwc, hcl⟩
      · cases hc

/-- The search for a free slot changes nothing that a thread sees. -/
theorem search (h : p.Orderly) (hloop : p.loop = .searching) {s : Slot} {l : Loop} (hl : ∀ c, l ≠ .starting c)
    (hfree : l = .accepting → p.clients s = none) : Orderly { p with slot := s, loop := l } := by
  refine ⟨h.slots, h.conns, h.mine, hfree, fun c hc => absurd hc (hl c), fun s' hs => ?_, h.events, h.once, h.done,
    fun c => ?_⟩
  · rcases h.taken s' hs with hin | ⟨c, hc, -⟩
    · exact .inl hin
    · rw [hloop] at hc
      cases hc
  · refine (h.all c).trans (or_congr_right (or_congr_right ?_))
    rw [hloop]
    exact ⟨fun hc => (nomatch hc), fun hc => absurd hc (hl c)⟩

/-! ## The steps of a thread -/

theorem use (h : p.Orderly) (hw : w ∈ p.workers) (hc : w.closed = false) :
    Orderly { p with log := ⟨w.conn, p.behind w.slot, false⟩ :: p.log } := by
  refine ⟨h.slots, h.conns, h.mine, h.accepting, h.starting, h.taken, fun e he => ?_, h.once, h.done, h.all⟩
  rcases List.mem_cons.mp he with rfl | he
  · exact h.behind_eq hw hc
  · exact h.events e he

/-- The thread of a connection after `close`. -/
def closeWorker (c : Nat) (x : Worker) : Worker := if x.conn = c then { x with closed := true } else x

theorem map_closeWorker (l : List Worker) (c : Nat) :
    (l.map (closeWorker c)).map Worker.slot = l.map Worker.slot ∧ (l.map (closeWorker c)).map Worker.conn =
      l.map Worker.conn := by
  rw [List.map_map, List.map_map]
  constructor
  · refine List.map_congr_left fun x _ => ?_
    unfold closeWorker Function.comp
    dsimp only
    split <;> rfl
  · refine List.map_congr_left fun x _ => ?_
    unfold closeWorker Function.comp
    dsimp only
    split <;> rfl

theorem close (h : p.Orderly) (hw : w ∈ p.workers) (hc : w.closed = false) {fd : Nat} (hfd : p.clients w.slot = some fd) :
    Orderly { p with
      log := ⟨w.conn, p.behind w.slot, true⟩ :: p.log
      owner := Function.update p.owner fd none
      workers := p.workers.map (closeWorker w.conn) } := by
  obtain ⟨hslots, hconns⟩ := map_closeWorker p.workers w.conn
  have hopen : w.conn ∉ p.closings := fun hm => by
    rw [(h.done w hw).mpr hm] at hc
    cases hc
  have hown : p.owner fd = some w.conn := by
    have hbehind := h.behind_eq hw hc
    unfold behind at hbehind
    rwa [hfd, Option.bind_some] at hbehind
  -- the threads after the step: the one that closes, and the others as they were
  have hworkers : ∀ x, x ∈ p.workers.map (closeWorker w.conn) ↔
      x = { w with closed := true } ∨ (x ∈ p.workers ∧ x.conn ≠ w.conn) := by
    intro x
    rw [List.mem_map]
    constructor
    · rintro ⟨y, hy, rfl⟩
      unfold closeWorker
      split
      · rename_i he
        exact .inl (by rw [h.eq_of_conn hy hw he])
      · exact .inr ⟨hy, ‹_›⟩
    · rintro (rfl | ⟨hx, hne⟩)
      · exact ⟨w, hw, if_pos rfl⟩
      · exact ⟨x, hx, if_neg hne⟩
  refine ⟨?_, ?_, fun x hx => ?_, h.accepting, fun c hl => ?_, fun s hs => ?_, fun e he => ?_, ?_, fun x hx => ?_,
    fun c => ?_⟩
  · rw [hslots]
    exact h.slots
  · rw [hconns]
    exact h.conns
  · rcases (hworkers x).mp hx with rfl | ⟨hx, hne⟩
    · exact ⟨fd, hfd, fun hcl => (nomatch hcl)⟩
    · obtain ⟨fd', hfd', hown'⟩ := h.mine x hx
      refine ⟨fd', hfd', fun hcl => ?_⟩
      have hdiff : fd' ≠ fd := by
        rintro rfl
        exact hne (Option.some.inj ((hown' hcl).symm.trans hown))
      exact (Function.update_of_ne hdiff ..).trans (hown' hcl)
  · obtain ⟨hbehind, hslot, hconn, hclosings⟩ := h.starting c hl
    obtain ⟨fd', hfd', hown'⟩ := Option.bind_eq_some_iff.mp hbehind
    have hcw : c ≠ w.conn := fun he => hconn (he ▸ List.mem_map_of_mem hw)
    have hdiff : fd' ≠ fd := by
      rintro rfl
      exact hcw (Option.some.inj (hown'.symm.trans hown))
    refine ⟨?_, by rw [hslots]; exact hslot, by rw [hconns]; exact hconn, ?_⟩
    · show (p.clients p.slot).bind (Function.update p.owner fd none) = some c
      rw [hfd', Option.bind_some, Function.update_of_ne hdiff, hown']
    · intro hm
      rcases List.mem_cons.mp hm with he | hm
      · exact hcw he
      · exact hclosings hm
  · rw [hslots]
    exact h.taken s hs
  · rcases List.mem_cons.mp he with rfl | he
    · exact h.behind_eq hw hc
    · exact h.events e he
  · exact List.nodup_cons.mpr ⟨hopen, h.once⟩
  · rcases (hworkers x).mp hx with rfl | ⟨hx, hne⟩
    · exact ⟨fun _ => List.mem_cons_self, fun _ => rfl⟩
    · refine (h.done x hx).trans ⟨fun hm => List.mem_cons_of_mem _ hm, fun hm => ?_⟩
      rcases List.mem_cons.mp hm with he | hm
      · exact absurd he hne
      · exact hm
  · refine (h.all c).trans ⟨?_, ?_⟩
    · rintro (hm | ⟨x, hx, rfl, hcl⟩ | hl)
      · exact .inl (List.mem_cons_of_mem _ hm)
      · by_cases he : x.conn = w.conn
        · rw [he]
          exact .inl List.mem_cons_self
        · exact .inr (.inl ⟨x, (hworkers x).mpr (.inr ⟨hx, he⟩), rfl, hcl⟩)
      · exact .inr (.inr hl)
    · rintro (hm | ⟨x, hx, rfl, hcl⟩ | hl)
      · rcases List.mem_cons.mp hm with rfl | hm
        · exact .inr (.inl ⟨w, hw, rfl, hc⟩)
        · exact .inl hm
      · rcases (hworkers x).mp hx with rfl | ⟨hx, -⟩
        · cases hcl
        · exact .inr (.inl ⟨x, hx, rfl, hcl⟩)
      · exact .inr (.inr hl)

theorem free (h : p.Orderly) (hw : w ∈ p.workers) (hc : w.closed = true) :
    Orderly { p with
      clients := Function.update p.clients w.slot none
      workers := p.workers.filter fun x => x.conn ≠ w.conn } := by
  have hsub : (p.workers.filter fun x => x.conn ≠ w.conn).Sublist p.workers := List.filter_sublist
  have hworkers : ∀ x, x ∈ p.workers.filter (fun x => x.conn ≠ w.conn) ↔ x ∈ p.workers ∧ x.conn ≠ w.conn := by
    intro x
    rw [List.mem_filter, decide_eq_true_eq]
  have hnotStarting : ∀ c, p.loop = .starting c → p.slot ≠ w.slot := fun c hl he =>
    (h.starting c hl).2.1 (he ▸ List.mem_map_of_mem hw)
  refine ⟨h.slots.sublist (hsub.map _), h.conns.sublist (hsub.map _), fun x hx => ?_, fun hl => ?_, fun c hl => ?_,
    fun s hs => ?_, h.events, h.once, fun x hx => h.done x ((hworkers x).mp hx).1, fun c => ?_⟩
  · obtain ⟨hx, hne⟩ := (hworkers x).mp hx
    obtain ⟨fd, hfd, hown⟩ := h.mine x hx
    have hslot : x.slot ≠ w.slot := fun he => hne (by rw [h.eq_of_slot hx hw he])
    exact ⟨fd, (Function.update_of_ne hslot ..).trans hfd, hown⟩
  · have hfree := h.accepting hl
    show Function.update p.clients w.slot none p.slot = none
    by_cases he : p.slot = w.slot
    · rw [he, Function.update_self]
    · rw [Function.update_of_ne he, hfree]
  · obtain ⟨hbehind, hslot, hconn, hclosings⟩ := h.starting c hl
    refine ⟨?_, fun hm => hslot ((hsub.map _).subset hm), fun hm => hconn ((hsub.map _).subset hm), hclosings⟩
    show (Function.update p.clients w.slot none p.slot).bind p.owner = some c
    rw [Function.update_of_ne (hnotStarting c hl)]
    exact hbehind
  · by_cases he : s = w.slot
    · exact absurd (by rw [he]; exact Function.update_self ..) hs
    · rcases h.taken s fun hnone => hs ((Function.update_of_ne he ..).trans hnone) with hin | hl
      · obtain ⟨x, hx, rfl⟩ := List.mem_map.mp hin
        refine .inl (List.mem_map.mpr ⟨x, (hworkers x).mpr ⟨hx, fun hconn => he ?_⟩, rfl⟩)
        rw [h.eq_of_conn hx hw hconn]
      · exact .inr hl
  · refine (h.all c).trans (or_congr_right (or_congr_left ?_))
    constructor
    · rintro ⟨x, hx, rfl, hcl⟩
      refine ⟨x, (hworkers x).mpr ⟨hx, fun he => ?_⟩, rfl, hcl⟩
      rw [h.eq_of_conn hx hw he, hc] at hcl
      cases hcl
    · rintro ⟨x, hx, rfl, hcl⟩
      exact ⟨x, ((hworkers x).mp hx).1, rfl, hcl⟩

/-- No step of the loop or of a thread breaks the order. -/
theorem step (h : p.Orderly) {a : Action} (hstep : p.step a = some p') : p'.Orderly := by
  cases a with
  | accept fd =>
    simp only [Pool.step] at hstep
    split at hstep
    · rename_i hguard
      cases hstep
      exact h.accept hguard.1 hguard.2
    · cases hstep
  | acceptFails =>
    simp only [Pool.step] at hstep
    split at hstep
    · cases hstep
      exact h.acceptFails ‹_›
    · cases hstep
  | start =>
    simp only [Pool.step] at hstep
    split at hstep
    · cases hstep
      exact h.start ‹_›
    · cases hstep
  | search =>
    simp only [Pool.step] at hstep
    split at hstep
    · rename_i hloop
      cases hstep
      split
      · exact h.search hloop (fun _ hl => nomatch hl) fun _ => ‹_›
      · have hs := h.search (s := p.slot.next) (l := .searching) hloop (fun _ hl => nomatch hl) fun hl => (nomatch hl)
        rw [← hloop] at hs
        exact hs
    · cases hstep
  | use c =>
    obtain ⟨w, hfound, hstep⟩ := Option.bind_eq_some_iff.mp hstep
    obtain ⟨hw, rfl⟩ := worker_mem hfound
    split at hstep
    · cases hstep
    · rename_i hc
      cases hstep
      exact h.use hw (by simpa using hc)
  | close c =>
    obtain ⟨w, hfound, hstep⟩ := Option.bind_eq_some_iff.mp hstep
    obtain ⟨hw, rfl⟩ := worker_mem hfound
    split at hstep
    · cases hstep
    · rename_i hc
      obtain ⟨fd, hfd, -⟩ := h.mine w hw
      cases hstep
      rw [hfd]
      exact h.close hw (by simpa using hc) hfd
  | free c =>
    obtain ⟨w, hfound, hstep⟩ := Option.bind_eq_some_iff.mp hstep
    obtain ⟨hw, rfl⟩ := worker_mem hfound
    split at hstep
    · cases hstep
      exact h.free hw ‹_›
    · cases hstep

end Orderly

/-- Each connection is with the loop or in the hands of one thread, or was closed. -/
def Held (p : Pool) (c : Nat) : Prop := (∃ w ∈ p.workers, w.conn = c ∧ w.closed = false) ∨ p.loop = .starting c

/-- Every interleaving of the loop with the threads, with any descriptors and any refused connections: whatever a thread
does with its slot, it does to its own connection. No connection is closed twice. Each one there has been is closed, or
else with the loop or with its thread, and no two threads share a slot. A slot that is not free is that of a thread, or
the one the loop is about to start a thread for. -/
theorem connections_apart (h : Reach (· = initial) (fun p p' => ∃ a, p.step a = some p') p) :
    (∀ e ∈ p.log, e.owner = some e.conn) ∧ p.closings.Nodup ∧
      (∀ c, c < p.accepted ↔ c ∈ p.closings ∨ p.Held c) ∧ (∀ c ∈ p.closings, ¬ p.Held c) ∧
      (p.workers.map Worker.slot).Nodup ∧ (p.workers.map Worker.conn).Nodup ∧
      ∀ s, p.clients s ≠ none → s ∈ p.workers.map Worker.slot ∨ ∃ c, p.loop = .starting c ∧ s = p.slot := by
  have ho : p.Orderly := by
    refine h.inv ?_ fun p p' hp hstep => ?_
    · rintro p rfl
      exact .initial
    · obtain ⟨a, ha⟩ := hstep
      exact hp.step ha
  refine ⟨ho.events, ho.once, ho.all, fun c hc hheld => ?_, ho.slots, ho.conns, ho.taken⟩
  rcases hheld with ⟨w, hw, rfl, hcl⟩ | hl
  · rw [(ho.done w hw).mpr hc] at hcl
    cases hcl
  · exact (ho.starting c hl).2.2.2 hc

/-- Two connections; the second one comes when the first is closed and not yet out of its slot, with the same descriptor. -/
def overlapping : List Action :=
  [.accept 5, .start, .search, .use 0, .search, .close 0, .accept 5, .start, .free 0, .use 1, .search]

theorem connections_apart_overlapping : ∃ p, overlapping.foldlM step initial = some p ∧
    p.log = [⟨1, some 1, false⟩, ⟨0, some 0, true⟩, ⟨0, some 0, false⟩] ∧ (∀ e ∈ p.log, e.owner = some e.conn) ∧
    p.closings.Nodup := by
  have hrun : ((overlapping.foldlM step initial).map Pool.log) =
      some [⟨1, some 1, false⟩, ⟨0, some 0, true⟩, ⟨0, some 0, false⟩] := by decide +kernel
  obtain ⟨p, hp, hlog⟩ := Option.map_eq_some_iff.mp hrun
  obtain ⟨hevents, honce, -⟩ := connections_apart (Reach.of_foldlM (fun _ a _ ha => ⟨a, ha⟩) overlapping (.start rfl) hp)
  exact ⟨p, hp, hlog, hevents, honce⟩

end Pool

end HttpServer

end TinyIoT
