import Mathlib.Data.List.Basic

/-!
# Parsers that are fed in chunks

A parser reads items off the front of its input, as long as an item is complete.  What is left is
kept until more arrives.

* `StreamParser` — one item: the new state and the rest of the input.  An item that is complete
  stays what it is when more input follows.
* `StreamParser.drain` — read items until none is complete.
* `StreamParser.drain_append` — draining a part first changes nothing.
* `StreamParser.feed_chunks` — only the concatenation of the chunks matters.
-/

/-- A parser with states `σ` that reads items off a list of `β`. -/
structure StreamParser (σ β : Type*) where
  step : σ → List β → Option (σ × List β)
  shrinks : ∀ {s input s' rest}, step s input = some (s', rest) → rest.length < input.length
  stable : ∀ {s input s' rest}, step s input = some (s', rest) →
    ∀ more, step s (input ++ more) = some (s', rest ++ more)

namespace StreamParser

variable {σ β : Type*} (parser : StreamParser σ β)

/-- Read items until none is complete: the state and what is left. -/
def drain (s : σ) (input : List β) : σ × List β :=
  match h : parser.step s input with
  | none => (s, input)
  | some (s', rest) =>
    have := parser.shrinks h
    drain s' rest
termination_by input.length

variable {parser} {s s' : σ} {input rest : List β}

theorem drain_of_none (h : parser.step s input = none) : parser.drain s input = (s, input) := by
  rw [drain]
  split
  · rfl
  · next heq => rw [h] at heq; cases heq

theorem drain_of_some (h : parser.step s input = some (s', rest)) :
    parser.drain s input = parser.drain s' rest := by
  rw [drain]
  split
  · next heq => rw [h] at heq; cases heq
  · next heq =>
    rw [h] at heq
    cases heq
    rfl

/-- No item is complete in what is left. -/
theorem step_drain (parser : StreamParser σ β) (s : σ) (input : List β) :
    parser.step (parser.drain s input).1 (parser.drain s input).2 = none := by
  induction hn : input.length using Nat.strongRecOn generalizing s input with
  | _ n ih =>
    cases h : parser.step s input with
    | none => rw [drain_of_none h]; exact h
    | some next =>
      rw [drain_of_some h]
      exact ih _ (hn ▸ parser.shrinks h) _ _ rfl

/-- **Chunks.** Draining what has arrived, and then what was left with the rest, is draining all. -/
theorem drain_append (parser : StreamParser σ β) (s : σ) (input more : List β) :
    parser.drain s (input ++ more)
      = parser.drain (parser.drain s input).1 ((parser.drain s input).2 ++ more) := by
  induction hn : input.length using Nat.strongRecOn generalizing s input with
  | _ n ih =>
    cases h : parser.step s input with
    | none => rw [drain_of_none h]
    | some next =>
      rw [drain_of_some h, drain_of_some (parser.stable h more)]
      exact ih _ (hn ▸ parser.shrinks h) _ _ rfl

/-- An invariant of the items holds after draining. -/
theorem drain_invariant {P : σ → List β → Prop}
    (hstep : ∀ s input s' rest, P s input → parser.step s input = some (s', rest) → P s' rest)
    (h : P s input) : P (parser.drain s input).1 (parser.drain s input).2 := by
  induction hn : input.length using Nat.strongRecOn generalizing s input with
  | _ n ih =>
    cases hs : parser.step s input with
    | none => rw [drain_of_none hs]; exact h
    | some next =>
      rw [drain_of_some hs]
      exact ih _ (hn ▸ parser.shrinks hs) (hstep _ _ _ _ h hs) rfl

/-- One chunk more. -/
def feed (parser : StreamParser σ β) (state : σ × List β) (chunk : List β) : σ × List β :=
  parser.drain state.1 (state.2 ++ chunk)

/-- Feeding chunks one after the other is feeding their concatenation. -/
theorem feed_chunks (parser : StreamParser σ β) (s : σ) (input : List β)
    (chunks : List (List β)) :
    chunks.foldl parser.feed (parser.drain s input) = parser.drain s (input ++ chunks.flatten) := by
  induction chunks generalizing input with
  | nil => rw [List.foldl_nil, List.flatten_nil, List.append_nil]
  | cons chunk chunks ih =>
    have hfeed : parser.feed (parser.drain s input) chunk = parser.drain s (input ++ chunk) :=
      (parser.drain_append s input chunk).symm
    rw [List.foldl_cons, hfeed, ih, List.flatten_cons, List.append_assoc]

end StreamParser
