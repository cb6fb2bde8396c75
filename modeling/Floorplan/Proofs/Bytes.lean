import Floorplan.Bytes

/-!
# Floorplan.Proofs.Bytes

A word or a long, written and read back, is itself, and so are the bytes of one that is read and
written again.
-/

namespace Floorplan
namespace Bytes

@[simp] theorem length_ofWord (w : UInt16) : (ofWord w).length = 2 := rfl

@[simp] theorem length_ofLong (l : UInt32) : (ofLong l).length = 4 := rfl

theorem word_ofNat (w : UInt16) :
    word (UInt8.ofNat (w.toNat / 256)) (UInt8.ofNat w.toNat) = w := by
  apply UInt16.toNat.inj
  have := w.toNat_lt
  simp only [word, UInt8.toNat_ofNat', UInt16.toNat_ofNat']
  omega

theorem long_ofNat (l : UInt32) :
    long (UInt8.ofNat (l.toNat / 16777216)) (UInt8.ofNat (l.toNat / 65536))
      (UInt8.ofNat (l.toNat / 256)) (UInt8.ofNat l.toNat) = l := by
  apply UInt32.toNat.inj
  have := l.toNat_lt
  simp only [long, UInt8.toNat_ofNat', UInt32.toNat_ofNat']
  omega

theorem ofNat_eq {n : Nat} {b : UInt8} (h : n % 256 = b.toNat) : UInt8.ofNat n = b := by
  apply UInt8.toNat.inj
  rw [UInt8.toNat_ofNat']
  exact h

theorem ofWord_word (x y : UInt8) : ofWord (word x y) = [x, y] := by
  have hx := x.toNat_lt
  have hy := y.toNat_lt
  have hvalue : (word x y).toNat = x.toNat * 256 + y.toNat := by
    rw [word, UInt16.toNat_ofNat', Nat.mod_eq_of_lt (by omega)]
  rw [ofWord, hvalue, ofNat_eq (b := x) (by omega), ofNat_eq (b := y) (by omega)]

theorem ofLong_long (x y z w : UInt8) : ofLong (long x y z w) = [x, y, z, w] := by
  have hx := x.toNat_lt
  have hy := y.toNat_lt
  have hz := z.toNat_lt
  have hw := w.toNat_lt
  have hvalue : (long x y z w).toNat =
      x.toNat * 16777216 + y.toNat * 65536 + z.toNat * 256 + w.toNat := by
    rw [long, UInt32.toNat_ofNat', Nat.mod_eq_of_lt (by omega)]
  rw [ofLong, hvalue, ofNat_eq (b := x) (by omega), ofNat_eq (b := y) (by omega),
    ofNat_eq (b := z) (by omega), ofNat_eq (b := w) (by omega)]

/-- The word at an index past which there are two bytes is theirs. -/
theorem wordAt_append {p q : List UInt8} (w : UInt16) {i : Nat} (h : p.length = i) :
    wordAt (p ++ ofWord w ++ q) i = w := by
  subst h
  simp only [wordAt, List.getD_eq_getElem?_getD, List.append_assoc]
  rw [List.getElem?_append_right (Nat.le_refl _), List.getElem?_append_right (Nat.le_add_right _ _)]
  simp only [Nat.sub_self, Nat.add_sub_cancel_left]
  exact word_ofNat w

/-- Two bytes at an index are the word there, written again. -/
theorem ofWord_wordAt {p q : List UInt8} {x y : UInt8} {i n : Nat} (hp : p.length = i)
    (h : (wordAt (p ++ [x, y] ++ q) i).toNat = n) : ofWord (UInt16.ofNat n) = [x, y] := by
  have hword := wordAt_append (p := p) (q := q) (word x y) hp
  rw [ofWord_word] at hword
  rw [← h, hword, UInt16.ofNat_toNat, ofWord_word]

theorem longAt_append {p q : List UInt8} (l : UInt32) {i : Nat} (h : p.length = i) :
    longAt (p ++ ofLong l ++ q) i = l := by
  subst h
  simp only [longAt, List.getD_eq_getElem?_getD, List.append_assoc]
  rw [List.getElem?_append_right (Nat.le_refl _), List.getElem?_append_right (Nat.le_add_right _ _),
    List.getElem?_append_right (Nat.le_add_right _ _),
    List.getElem?_append_right (Nat.le_add_right _ _)]
  simp only [Nat.sub_self, Nat.add_sub_cancel_left]
  exact long_ofNat l

end Bytes
end Floorplan
