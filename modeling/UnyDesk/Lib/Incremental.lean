import Mathlib.Data.List.Basic

/-!
# Incremental decoders

A decoder takes items from the front of a buffer and asks for more when the buffer does not hold a whole
item. It is called until it asks for more whenever a chunk has been appended. How the input is cut into
chunks does not matter: every cutting gives the items of the whole input.
-/

namespace UnyDesk.Lib

open List

variable {B S O E : Type}

/-- A decoder with state `S` over a buffer of `B`, for items `O` and errors `E`. An answer stands when the
buffer grows, and asking for more loses nothing. -/
structure IncrementalDecoder (B S O E : Type) where
  /-- The item, the new state and the rest of the buffer. -/
  decode : S → List B → Except E (Option O × S × List B)
  /-- Falls with every item. -/
  room : S → List B → ℕ
  room_lt : ∀ {s buf o s' rest}, decode s buf = .ok (some o, s', rest) → room s' rest < room s buf
  decode_append_of_item : ∀ {s buf o s' rest} (more : List B), decode s buf = .ok (some o, s', rest) →
    decode s (buf ++ more) = .ok (some o, s', rest ++ more)
  decode_append_of_none : ∀ {s buf s' rest} (more : List B), decode s buf = .ok (none, s', rest) →
    decode s (buf ++ more) = decode s' (rest ++ more)
  decode_append_of_error : ∀ {s buf e} (more : List B), decode s buf = .error e → decode s (buf ++ more) = .error e

namespace IncrementalDecoder

variable (d : IncrementalDecoder B S O E)

/-- The items until the decoder asks for more or fails. -/
def drain (s : S) (buf : List B) : List O × Except E (S × List B) :=
  match h : d.decode s buf with
  | .error e => ([], .error e)
  | .ok (none, s', rest) => ([], .ok (s', rest))
  | .ok (some o, s', rest) =>
    have := d.room_lt h
    let after := drain s' rest
    (o :: after.1, after.2)
termination_by d.room s buf

/-- The items of chunks that arrive one by one. -/
def feed (s : S) (buf : List B) : List (List B) → List O × Except E (S × List B)
  | [] => ([], .ok (s, buf))
  | chunk :: chunks =>
    match d.drain s (buf ++ chunk) with
    | (items, .error e) => (items, .error e)
    | (items, .ok (s', rest)) => (items ++ (feed s' rest chunks).1, (feed s' rest chunks).2)

variable {d} {s s' : S} {buf rest : List B}

theorem drain_of_error {e : E} (h : d.decode s buf = .error e) : d.drain s buf = ([], .error e) := by
  rw [drain]
  split
  next e' h' => rw [h] at h'; rw [Except.error.inj h']
  next h' => exact nomatch h.symm.trans h'
  next h' => exact nomatch h.symm.trans h'

theorem drain_of_none (h : d.decode s buf = .ok (none, s', rest)) : d.drain s buf = ([], .ok (s', rest)) := by
  rw [drain]
  split
  next h' => exact nomatch h.symm.trans h'
  next h' =>
    obtain ⟨-, heq⟩ := Prod.mk.inj (Except.ok.inj (h.symm.trans h'))
    rw [heq]
  next h' => exact nomatch h.symm.trans h'

theorem drain_of_item {o : O} (h : d.decode s buf = .ok (some o, s', rest)) :
    d.drain s buf = (o :: (d.drain s' rest).1, (d.drain s' rest).2) := by
  rw [drain]
  split
  next h' => exact nomatch h.symm.trans h'
  next h' => exact nomatch h.symm.trans h'
  next h' =>
    obtain ⟨hitem, heq⟩ := Prod.mk.inj (Except.ok.inj (h.symm.trans h'))
    obtain ⟨rfl, rfl⟩ := Prod.mk.inj heq
    rw [Option.some.inj hitem]

theorem drain_congr {buf' : List B} (h : d.decode s buf = d.decode s' buf') : d.drain s buf = d.drain s' buf' := by
  cases hdecode : d.decode s buf with
  | error e => rw [drain_of_error hdecode, drain_of_error (h ▸ hdecode)]
  | ok found =>
    obtain ⟨item, s'', rest⟩ := found
    cases item with
    | none => rw [drain_of_none hdecode, drain_of_none (h ▸ hdecode)]
    | some o => rw [drain_of_item hdecode, drain_of_item (h.symm.trans hdecode)]

/-- A decoder that asked for more asks again on the same buffer. -/
theorem decode_of_none (h : d.decode s buf = .ok (none, s', rest)) : d.decode s' rest = .ok (none, s', rest) := by
  have hmore := d.decode_append_of_none [] h
  rw [append_nil, append_nil, h] at hmore
  exact hmore.symm

/-- Draining a grown buffer is draining what is left after draining the buffer. -/
theorem drain_append (s : S) (buf more : List B) : d.drain s (buf ++ more) = match d.drain s buf with
      | (items, .error e) => (items, .error e)
      | (items, .ok (s', rest)) => (items ++ (d.drain s' (rest ++ more)).1, (d.drain s' (rest ++ more)).2) := by
  induction hn : d.room s buf using Nat.strongRecOn generalizing s buf with
  | ind n ih =>
    subst hn
    cases hdecode : d.decode s buf with
    | error e => rw [drain_of_error hdecode, drain_of_error (d.decode_append_of_error more hdecode)]
    | ok found =>
      obtain ⟨item, s', rest⟩ := found
      cases item with
      | none =>
        rw [drain_of_none hdecode, drain_congr (d.decode_append_of_none more hdecode)]
        rfl
      | some o =>
        have hroom := d.room_lt hdecode
        rw [drain_of_item hdecode, drain_of_item (d.decode_append_of_item more hdecode), ih _ hroom s' rest rfl]
        cases hafter : d.drain s' rest with
        | mk items stop => cases stop <;> rfl

/-- A drained buffer holds no item. -/
theorem drain_settled {items : List O} (h : d.drain s buf = (items, .ok (s', rest))) :
    d.drain s' rest = ([], .ok (s', rest)) := by
  induction hn : d.room s buf using Nat.strongRecOn generalizing s buf items with
  | ind n ih =>
    subst hn
    cases hdecode : d.decode s buf with
    | error e =>
      rw [drain_of_error hdecode] at h
      exact nomatch h
    | ok found =>
      obtain ⟨item, s'', rest''⟩ := found
      cases item with
      | none =>
        rw [drain_of_none hdecode] at h
        obtain ⟨rfl, rfl⟩ := Prod.mk.inj (Except.ok.inj (Prod.mk.inj h).2)
        exact drain_of_none (decode_of_none hdecode)
      | some o =>
        rw [drain_of_item hdecode] at h
        obtain ⟨-, hstop⟩ := Prod.mk.inj h
        exact ih _ (d.room_lt hdecode) (Prod.ext rfl hstop) rfl

/-- However the input is cut into chunks, the items are those of the whole input. -/
theorem feed_eq_drain (hsettled : d.drain s buf = ([], .ok (s, buf))) (chunks : List (List B)) :
    d.feed s buf chunks = d.drain s (buf ++ chunks.flatten) := by
  induction chunks generalizing s buf with
  | nil => rw [feed, flatten_nil, append_nil, hsettled]
  | cons chunk chunks ih =>
    rw [feed, flatten_cons, ← append_assoc, drain_append s (buf ++ chunk)]
    cases hdrain : d.drain s (buf ++ chunk) with
    | mk items stop =>
      cases stop with
      | error e => rfl
      | ok found =>
        obtain ⟨s', rest⟩ := found
        simp only [ih (drain_settled hdrain)]

end IncrementalDecoder

end UnyDesk.Lib
