import Mathlib.Data.List.Forall2
import Floorplan.Bytes.Cursor
import Floorplan.Proofs.Bytes

/-!
# Floorplan.Proofs.Reading

What a read finds. `Read.Finds read bytes a` says that `read` gives `a` where `bytes` come next, at
any offset and whatever stands behind them, and that it passes just these bytes. Reads in sequence
find what their parts find (`Finds.bind`), so the reads of points, rectangles and whole operations
are settled part by part. The converse is `Read.Takes read P`: whatever the read gives, `P` holds of
it and of the bytes that it passes. How many bytes are enough is said by `Read.Needs read n`: wherever
there are `n`, the read gives something.
-/

namespace Floorplan

theorem bind_eq_ok {ε α β : Type} {x : Except ε α} {f : α → Except ε β} {b : β}
    (h : (x >>= f) = .ok b) : ∃ a, x = .ok a ∧ f a = .ok b := by
  cases x with
  | error e => cases h
  | ok a => exact ⟨a, rfl, h⟩

theorem bind_eq_ok_iff {ε α β : Type} {x : Except ε α} {f : α → Except ε β} {b : β} :
    (x >>= f) = .ok b ↔ ∃ a, x = .ok a ∧ f a = .ok b := by
  refine ⟨bind_eq_ok, ?_⟩
  rintro ⟨a, rfl, h⟩
  exact h

theorem bind_eq_error {ε α β : Type} {x : Except ε α} {f : α → Except ε β} {e : ε}
    (h : (x >>= f) = .error e) : x = .error e ∨ ∃ a, x = .ok a ∧ f a = .error e := by
  cases x with
  | error e' =>
    cases h
    exact .inl rfl
  | ok a => exact .inr ⟨a, rfl, h⟩

theorem forall₂_getLast? {α β : Type} {r : α → β → Prop} {l : List α} {m : List β}
    (h : List.Forall₂ r l m) : Option.Rel r l.getLast? m.getLast? := by
  have hreverse := List.forall₂_reverse_iff.mpr h
  rw [← List.head?_reverse, ← List.head?_reverse]
  generalize l.reverse = l' at hreverse ⊢
  generalize m.reverse = m' at hreverse ⊢
  cases hreverse with
  | nil => exact .none
  | cons hhead htail => exact .some hhead

namespace Read

/-- Where `bytes` come next, the read gives `a` and passes them. -/
def Finds {α : Type} (read : Read α) (bytes : List UInt8) (a : α) : Prop :=
  ∀ (offset : Nat) (rest : List UInt8),
    read ⟨offset, bytes ++ rest⟩ = (some a, ⟨offset + bytes.length, rest⟩)

theorem bind_apply {α β : Type} (read : Read α) (f : α → Read β) (c : Cursor) :
    (read >>= f) c =
      match read c with
      | (some a, c') => f a c'
      | (none, c') => (none, c') := by
  simp only [Bind.bind, OptionT.bind, OptionT.mk, StateT.bind]
  rcases read c with ⟨_ | a, c'⟩ <;> rfl

namespace Finds

variable {α β : Type} {read : Read α} {a : α}

theorem pure (a : α) : Finds (Pure.pure a) [] a := fun _ _ => rfl

theorem bind {f : α → Read β} {p q : List UInt8} {b : β} (h₁ : Finds read p a)
    (h₂ : Finds (f a) q b) : Finds (read >>= f) (p ++ q) b := by
  intro offset rest
  rw [bind_apply, List.append_assoc, h₁]
  simp only []
  rw [h₂, List.length_append, Nat.add_assoc]

/-- A read whose value is only wrapped up. -/
theorem map {bytes : List UInt8} (f : α → β) (h : Finds read bytes a) :
    Finds (do return f (← read)) bytes (f a) := by
  have h' := h.bind (f := fun a => (Pure.pure (f a) : Read β)) (pure (f a))
  rwa [List.append_nil] at h'

theorem find?_append {bytes : List UInt8} (h : Finds read bytes a) (rest : List UInt8) :
    read.find? (bytes ++ rest) = some a := by
  show (read ⟨0, bytes ++ rest⟩).1 = _
  rw [h]

theorem find?_eq {bytes : List UInt8} (h : Finds read bytes a) : read.find? bytes = some a := by
  have h' := h.find?_append []
  rwa [List.append_nil] at h'

end Finds

/-! ### Bytes and numbers -/

theorem split?_append {n offset : Nat} {bytes : List UInt8} (rest : List UInt8)
    (h : bytes.length = n) :
    (⟨offset, bytes ++ rest⟩ : Cursor).split? n = some (bytes, ⟨offset + n, rest⟩) := by
  subst h
  simp [Cursor.split?]

theorem split?_of_le {n : Nat} {c : Cursor} (h : n ≤ c.rest.length) :
    c.split? n = some (c.rest.take n, ⟨c.offset + n, c.rest.drop n⟩) := by
  simp only [Cursor.split?, List.length_take_of_le h, if_true]

theorem split?_eq_none_iff {n : Nat} {c : Cursor} : c.split? n = none ↔ c.rest.length < n := by
  constructor
  · intro hnone
    by_contra hle
    rw [split?_of_le (Nat.not_lt.mp hle)] at hnone
    cases hnone
  · intro hlt
    have hshort : (c.rest.take n).length ≠ n := by
      rw [List.length_take]
      omega
    simp only [Cursor.split?, hshort, if_false]

theorem finds_take {n : Nat} {bytes : List UInt8} (h : bytes.length = n) :
    Finds (take n) bytes bytes := by
  intro offset rest
  simp only [take, split?_append rest h]
  rw [h]

theorem finds_skip {n : Nat} {bytes : List UInt8} (h : bytes.length = n) :
    Finds (skip n) bytes () := by
  have h' := (finds_take h).bind (f := fun _ => (pure () : Read Unit)) (Finds.pure ())
  rwa [List.append_nil] at h'

theorem finds_byte (b : UInt8) : Finds byte [b] b := fun _ _ => rfl

theorem finds_signedByte (b : Int8) : Finds signedByte [b.toUInt8] b :=
  (finds_byte b.toUInt8).map UInt8.toInt8

theorem finds_word (w : UInt16) : Finds word (Bytes.ofWord w) w := by
  intro offset rest
  show (some (Bytes.word _ _), _) = _
  rw [Bytes.word_ofNat]
  rfl

theorem finds_signedWord (w : Int16) : Finds signedWord (Bytes.ofSigned w) w :=
  (finds_word w.toUInt16).map UInt16.toInt16

theorem finds_long (l : UInt32) : Finds long (Bytes.ofLong l) l := by
  intro offset rest
  show (some (Bytes.long _ _ _ _), _) = _
  rw [Bytes.long_ofNat]
  rfl

theorem finds_signedLong (l : Int32) : Finds signedLong (Bytes.ofLong l.toUInt32) l :=
  (finds_long l.toUInt32).map UInt32.toInt32

/-! ### Bytes that were passed -/

structure Takes {α : Type} (read : Read α) (P : α → List UInt8 → Prop) : Prop where
  passed : ∀ {c c' : Cursor} {a : α}, read c = (some a, c') →
    ∃ bytes, c.rest = bytes ++ c'.rest ∧ P a bytes

namespace Takes

variable {α β : Type} {read : Read α} {P : α → List UInt8 → Prop} {Q : β → List UInt8 → Prop}

theorem pure {a : α} (h : P a []) : Takes (Pure.pure a) P where
  passed hread := by
    cases hread
    exact ⟨[], rfl, h⟩

theorem failure : Takes (failure : Read α) P where
  passed hread := by cases hread

theorem bind {f : α → Read β} (h : Takes read P)
    (hf : ∀ a p, P a p → Takes (f a) fun b q => Q b (p ++ q)) : Takes (read >>= f) Q where
  passed {c c'' b} hread := by
    rw [bind_apply] at hread
    split at hread
    · next a c' ha =>
      obtain ⟨p, hp, hP⟩ := h.passed ha
      obtain ⟨q, hq, hQ⟩ := (hf a p hP).passed hread
      exact ⟨p ++ q, by rw [hp, hq, List.append_assoc], hQ⟩
    · cases hread

/-- A read whose value is only wrapped up. -/
theorem map {f : α → β} (h : Takes read P) (hf : ∀ a p, P a p → Q (f a) p) :
    Takes (do return f (← read)) Q := by
  refine h.bind ?_
  intro a p hP
  apply pure
  rw [List.append_nil]
  exact hf a p hP

theorem of_find? (h : Takes read P) {bytes : List UInt8} {a : α} (ha : read.find? bytes = some a) :
    ∃ taken left, bytes = taken ++ left ∧ P a taken := by
  have hread : read (Cursor.ofBytes bytes) = (some a, (read (Cursor.ofBytes bytes)).2) :=
    Prod.ext ha rfl
  obtain ⟨taken, htaken, hP⟩ := h.passed hread
  exact ⟨taken, _, htaken, hP⟩

end Takes

theorem takes_take (n : Nat) :
    Takes (take n) fun taken bytes => bytes = taken ∧ taken.length = n where
  passed {c c' taken} hread := by
    unfold take at hread
    split at hread
    · next hsplit =>
      cases hread
      simp only [Cursor.split?] at hsplit
      split at hsplit
      · next hlength =>
        cases hsplit
        exact ⟨_, (List.take_append_drop n c.rest).symm, rfl, hlength⟩
      · cases hsplit
    · cases hread

theorem takes_skip (n : Nat) : Takes (skip n) fun _ bytes => bytes.length = n := by
  refine (takes_take n).bind ?_
  rintro taken _ ⟨rfl, hlength⟩
  apply Takes.pure
  rw [List.append_nil]
  exact hlength

theorem takes_byte : Takes byte fun b bytes => bytes = [b] where
  passed {c c' b} hread := by
    unfold byte at hread
    split at hread
    · next hrest =>
      cases hread
      exact ⟨_, hrest, rfl⟩
    · cases hread

theorem takes_signedByte : Takes signedByte fun b bytes => bytes = [b.toUInt8] := by
  refine takes_byte.map ?_
  intro b bytes h
  rw [h, UInt8.toUInt8_toInt8]

theorem takes_word : Takes word fun w bytes => bytes = Bytes.ofWord w where
  passed {c c' w} hread := by
    unfold word at hread
    split at hread
    · next x y rest hrest =>
      cases hread
      exact ⟨[x, y], hrest, (Bytes.ofWord_word x y).symm⟩
    · cases hread

theorem takes_signedWord : Takes signedWord fun w bytes => bytes = Bytes.ofSigned w := by
  refine takes_word.map ?_
  intro w bytes h
  rw [h, Bytes.ofSigned, UInt16.toUInt16_toInt16]

theorem takes_long : Takes long fun l bytes => bytes = Bytes.ofLong l where
  passed {c c' l} hread := by
    unfold long at hread
    split at hread
    · next x y z w rest hrest =>
      cases hread
      exact ⟨[x, y, z, w], hrest, (Bytes.ofLong_long x y z w).symm⟩
    · cases hread

theorem takes_signedLong : Takes signedLong fun l bytes => bytes = Bytes.ofLong l.toUInt32 := by
  refine takes_long.map ?_
  intro l bytes h
  rw [h, UInt32.toUInt32_toInt32]

/-! ### Bytes enough -/

/-- Where `n` bytes come next, the read gives something and passes just these. -/
structure Needs {α : Type} (read : Read α) (n : Nat) : Prop where
  gives : ∀ {c : Cursor}, n ≤ c.rest.length →
    ∃ a, read c = (some a, ⟨c.offset + n, c.rest.drop n⟩)

namespace Needs

variable {α β : Type} {read : Read α} {n m : Nat}

theorem pure (a : α) : Needs (Pure.pure a) 0 where
  gives _ := ⟨a, rfl⟩

theorem bind {f : α → Read β} (h : Needs read n) (hf : ∀ a, Needs (f a) m) :
    Needs (read >>= f) (n + m) where
  gives {c} hc := by
    obtain ⟨a, ha⟩ := h.gives (Nat.le_trans (Nat.le_add_right n m) hc)
    have hm : m ≤ (c.rest.drop n).length := by
      rw [List.length_drop]
      omega
    obtain ⟨b, hb⟩ := (hf a).gives (c := ⟨c.offset + n, c.rest.drop n⟩) hm
    refine ⟨b, ?_⟩
    rw [bind_apply, ha]
    dsimp only
    rw [hb, List.drop_drop, Nat.add_assoc]

/-- A read whose value is only wrapped up. -/
theorem map (f : α → β) (h : Needs read n) : Needs (do return f (← read)) n :=
  h.bind fun a => pure (f a)

theorem exists_find? (h : Needs read n) {bytes : List UInt8} (hbytes : n ≤ bytes.length) :
    ∃ a, read.find? bytes = some a := by
  obtain ⟨a, ha⟩ := h.gives (c := Cursor.ofBytes bytes) hbytes
  exact ⟨a, congrArg Prod.fst ha⟩

end Needs

theorem needs_take (n : Nat) : Needs (take n) n where
  gives {c} hc := by
    refine ⟨c.rest.take n, ?_⟩
    simp only [take, split?_of_le hc]

theorem needs_skip (n : Nat) : Needs (skip n) n :=
  (needs_take n).bind fun _ => .pure ()

theorem needs_byte : Needs byte 1 where
  gives {c} hc := by
    obtain ⟨offset, rest⟩ := c
    rcases rest with _ | ⟨x, rest⟩
    · cases hc
    · exact ⟨x, rfl⟩

theorem needs_signedByte : Needs signedByte 1 := needs_byte.map UInt8.toInt8

theorem needs_word : Needs word 2 where
  gives {c} hc := by
    obtain ⟨offset, rest⟩ := c
    rcases rest with _ | ⟨x, _ | ⟨y, rest⟩⟩
    · cases hc
    · simp at hc
    · exact ⟨Bytes.word x y, rfl⟩

theorem needs_signedWord : Needs signedWord 2 := needs_word.map UInt16.toInt16

theorem needs_long : Needs long 4 where
  gives {c} hc := by
    obtain ⟨offset, rest⟩ := c
    rcases rest with _ | ⟨x, _ | ⟨y, _ | ⟨z, _ | ⟨w, rest⟩⟩⟩⟩
    · cases hc
    · simp at hc
    · simp at hc
    · simp at hc
    · exact ⟨Bytes.long x y z w, rfl⟩

theorem needs_signedLong : Needs signedLong 4 := needs_long.map UInt32.toInt32

end Read
end Floorplan
