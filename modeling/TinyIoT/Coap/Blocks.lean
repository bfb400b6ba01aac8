/-
A request body that comes in blocks (`hnd_coap_req`): what has come of it is kept with the cache entry of the request
until the last block, whatever blocks of other requests come between. A block that comes again before the next one changes
nothing, and an attempt that was broken off is forgotten with the first block of a new one.

The cache, by the session and the options of a request without those of the blocks, and the binary strings are libcoap's;
`resize` is `coap_resize_binary`, whose new bytes are not said. Memory does not run out.
-/
import TinyIoT.Lib.Shards

namespace TinyIoT

namespace Coap

/-- What `coap_get_data_large` says of a block of a body, and the key of the cache entry it goes to. -/
structure Block (κ : Type) where
  key : κ
  offset : Nat
  data : List UInt8
  total : Nat

/-- The cache entry of a request, if any, and its application data. -/
abbrev Entry := Option (Option (List UInt8))

inductive Outcome where
  /-- `COAP_RESPONSE_CODE_CONTINUE` -/
  | next
  /-- `COAP_RESPONSE_CODE_INTERNAL_ERROR` -/
  | internalError
  /-- The whole body, for `route`. -/
  | body (data : List UInt8)
  /-- The body is taken from where there is none. -/
  | crash
  deriving DecidableEq, Repr

section Blocks

variable {κ : Type} (resize : List UInt8 → Nat → List UInt8)

/-- The block is put behind or into what there is. -/
def putBlock (b : Block κ) (soFar : Option (List UInt8)) : Option (List UInt8) :=
  if b.data = [] then soFar
  else match soFar with
    | none => some b.data
    | some old => some ((resize old (b.offset + b.data.length)).take b.offset ++ b.data)

/-- The part of `hnd_coap_req` between the options and the parser. -/
def receiveBlock (e : Entry) (b : Block κ) : Entry × Outcome :=
  if b.data.length = b.total then (e, .body b.data)
  else
    -- the first block finds or makes an entry without data
    match (if b.offset = 0 then some none else e) with
    | none => (none, .internalError)
    | some soFar =>
      if b.offset + b.data.length = b.total then
        (some none, ((putBlock resize b soFar).map .body).getD .crash)
      else (some (putBlock resize b soFar), .next)

/-- The blocks a client sends for a body from an offset on, each of them more than once perhaps before the last. The total
of a block that is not the last is the size the client names, or one more than the end of the block. -/
inductive Sends (key : κ) (p : List UInt8) : Nat → List (Block κ) → Prop where
  | last {off : Nat} : off < p.length → Sends key p off [⟨key, off, p.drop off, p.length⟩]
  | more {off n m total : Nat} {l : List (Block κ)} : 0 < n → off + n < p.length → off + n < total →
    Sends key p (off + n) l → Sends key p off (List.replicate (m + 1) ⟨key, off, (p.drop off).take n, total⟩ ++ l)

variable {resize} {key : κ} {p : List UInt8} {off n total : Nat} {e : Entry}

/-- A block in the middle brings what there is to its end, whether it comes for the first time or again. -/
theorem receiveBlock_middle (hresize : ∀ l n, l.length ≤ n → (resize l n).take l.length = l) (hn : 0 < n)
    (hlt : off + n < p.length) (htotal : off + n < total) {old : Nat} (hold : old = off ∨ old = off + n)
    (he : 0 < off → e = some (some (p.take old))) :
    receiveBlock resize e ⟨key, off, (p.drop off).take n, total⟩ = (some (some (p.take (off + n))), .next) := by
  have hlen : ((p.drop off).take n).length = n := by
    rw [List.length_take, List.length_drop]
    omega
  have hdata : (p.drop off).take n ≠ [] := by
    rw [← List.length_pos_iff, hlen]
    exact hn
  have hput : (p.take off ++ (p.drop off).take n) = p.take (off + n) := (List.take_add ..).symm
  unfold receiveBlock
  dsimp only
  rw [hlen, if_neg (by omega)]
  by_cases hoff : off = 0
  · subst hoff
    rw [if_pos rfl]
    dsimp only
    rw [if_neg (by omega)]
    unfold putBlock
    dsimp only
    rw [if_neg hdata, List.drop_zero, Nat.zero_add]
  · rw [if_neg hoff, he (by omega)]
    dsimp only
    rw [if_neg (by omega)]
    unfold putBlock
    dsimp only
    have hold' : (p.take old).length = old := by
      rw [List.length_take]
      omega
    have hkept : (resize (p.take old) (off + n)).take off = p.take off := by
      have hstart := hresize (p.take old) (off + n) (by omega)
      rw [hold'] at hstart
      calc (resize (p.take old) (off + n)).take off
          = ((resize (p.take old) (off + n)).take old).take off := by rw [List.take_take, Nat.min_eq_left (by omega)]
        _ = p.take off := by rw [hstart, List.take_take, Nat.min_eq_left (by omega)]
    rw [if_neg hdata, hlen, hkept, hput]

theorem receiveBlock_last (hresize : ∀ l n, l.length ≤ n → (resize l n).take l.length = l) (hlt : off < p.length)
    (he : 0 < off → e = some (some (p.take off))) :
    (receiveBlock resize e ⟨key, off, p.drop off, p.length⟩).2 = .body p := by
  have hlen : (p.drop off).length = p.length - off := List.length_drop
  unfold receiveBlock
  dsimp only
  by_cases hoff : off = 0
  · subst hoff
    rw [if_pos (by rw [List.drop_zero])]
    rfl
  · have hdata : p.drop off ≠ [] := by
      rw [← List.length_pos_iff, hlen]
      omega
    rw [if_neg (by omega), if_neg hoff, he (by omega)]
    dsimp only
    rw [if_pos (by omega)]
    unfold putBlock
    dsimp only
    have hold : (p.take off).length = off := by
      rw [List.length_take]
      omega
    have hkept := hresize (p.take off) (off + (p.drop off).length) (by omega)
    rw [hold] at hkept
    rw [if_neg hdata, hkept, List.take_append_drop]
    rfl

/-- What is sent more than once. -/
theorem runPart_replicate (hresize : ∀ l n, l.length ≤ n → (resize l n).take l.length = l) (hn : 0 < n)
    (hlt : off + n < p.length) (htotal : off + n < total) {old : Nat} (hold : old = off ∨ old = off + n)
    (he : 0 < off → e = some (some (p.take old))) (m : Nat) :
    Shards.runPart (receiveBlock resize) e (List.replicate (m + 1) ⟨key, off, (p.drop off).take n, total⟩) =
      (some (some (p.take (off + n))), List.replicate (m + 1) .next) := by
  induction m generalizing e old with
  | zero =>
    rw [List.replicate_one, Shards.runPart, receiveBlock_middle hresize hn hlt htotal hold he]
    rfl
  | succ m ih =>
    rw [List.replicate_succ, Shards.runPart, receiveBlock_middle hresize hn hlt htotal hold he, ih (.inr rfl) fun _ => rfl]
    rfl

/-- The blocks of a body make it whole with the last one. -/
theorem runPart_sends (hresize : ∀ l n, l.length ≤ n → (resize l n).take l.length = l) {l : List (Block κ)}
    (h : Sends key p off l) (he : 0 < off → e = some (some (p.take off))) :
    (Shards.runPart (receiveBlock resize) e l).2 = List.replicate (l.length - 1) .next ++ [.body p] := by
  induction h generalizing e with
  | last hlt =>
    rw [Shards.runPart]
    dsimp only
    rw [receiveBlock_last hresize hlt he]
    rfl
  | @more off n m total l hn hlt htotal hrest ih =>
    rw [Shards.runPart_append, runPart_replicate hresize hn hlt htotal (.inl rfl) he]
    dsimp only
    rw [ih fun _ => rfl]
    have hpos : 0 < l.length := by
      cases hrest with
      | last => exact Nat.zero_lt_one
      | more =>
        rw [List.length_append, List.length_replicate]
        omega
    have hlen : (List.replicate (m + 1) (⟨key, off, (p.drop off).take n, total⟩ : Block κ) ++ l).length - 1 =
        m + 1 + (l.length - 1) := by
      rw [List.length_append, List.length_replicate]
      omega
    have hnext : List.replicate (m + 1 + (l.length - 1)) Outcome.next =
        List.replicate (m + 1) .next ++ List.replicate (l.length - 1) .next := List.replicate_append_replicate.symm
    rw [hlen, hnext, List.append_assoc]

end Blocks

/-- In any order in which the blocks of any number of requests come, a body whose blocks come one after another is handed
over whole with its last block and not before: other requests make no difference, nor what came for the same request
before, nor a block that comes again. -/
theorem body_of_blocks {κ : Type} [DecidableEq κ] {resize : List UInt8 → Nat → List UInt8}
    (hresize : ∀ l n, l.length ≤ n → (resize l n).take l.length = l) (cache : κ → Entry) {l before blocks : List (Block κ)}
    {key : κ} {p : List UInt8} (hown : l.filter (fun b => b.key = key) = before ++ blocks) (hsends : Sends key p 0 blocks) :
    ∃ answers, answers.length = before.length ∧
      ((Shards.run (receiveBlock resize) Block.key cache l).2.filter fun o => o.1 = key).map Prod.snd =
        answers ++ List.replicate (blocks.length - 1) .next ++ [.body p] := by
  refine ⟨(Shards.runPart (receiveBlock resize) (cache key) before).2, Shards.length_runPart, ?_⟩
  rw [Shards.run_part.2, hown, Shards.runPart_append, List.append_assoc]
  exact congrArg _ (runPart_sends hresize hsends fun h => absurd h (Nat.lt_irrefl 0))

/-- Two clients, whose blocks come by turns; the first block of one of them comes twice, and tells no size. -/
def turns : List (Block Bool) :=
  [⟨true, 0, [1, 2, 3, 4], 5⟩, ⟨false, 0, [7], 2⟩, ⟨true, 0, [1, 2, 3, 4], 5⟩, ⟨false, 1, [8], 2⟩, ⟨true, 4, [5, 6], 6⟩]

theorem body_of_blocks_turns : ∃ answers, answers.length = 0 ∧
    ((Shards.run (receiveBlock fun l n => l.take n ++ List.replicate (n - l.length) 0) Block.key (fun _ => none)
      turns).2.filter fun o => o.1 = true).map Prod.snd = answers ++ List.replicate 2 .next ++ [.body [1, 2, 3, 4, 5, 6]] := by
  have hown : turns.filter (fun b => b.key = true) =
      [] ++ [⟨true, 0, [1, 2, 3, 4], 5⟩, ⟨true, 0, [1, 2, 3, 4], 5⟩, ⟨true, 4, [5, 6], 6⟩] := rfl
  have hlast : Sends true [1, 2, 3, 4, 5, 6] 4 [⟨true, 4, [5, 6], 6⟩] := .last (by decide)
  refine body_of_blocks (fun l n hle => ?_) _ hown (.more (n := 4) (m := 1) (by decide) (by decide) (by decide) hlast)
  rw [List.take_of_length_le hle, List.take_left]

end Coap

end TinyIoT
