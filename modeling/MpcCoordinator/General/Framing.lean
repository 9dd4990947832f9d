import Mathlib.Data.Set.Function

variable {α β : Type*} {valid : Set α} {encode : α → List β}

/-- A value from a set can be read off the front of a string that starts with
its encoding, whatever follows. -/
def Framed (valid : Set α) (encode : α → List β) : Prop :=
  ∀ ⦃a⦄, a ∈ valid → ∀ ⦃b⦄, b ∈ valid → ∀ ⦃rest rest'⦄, encode a ++ rest = encode b ++ rest' → a = b ∧ rest = rest'

/-- Encodings of one length need no mark at their end. -/
theorem Framed.of_length {n : Nat} (distinct : valid.InjOn encode) (fixed : ∀ a ∈ valid, (encode a).length = n) :
    Framed valid encode := by
  intro a inside b inside' rest rest' same
  obtain ⟨front, tail⟩ := List.append_inj same ((fixed a inside).trans (fixed b inside').symm)
  exact ⟨distinct inside inside' front, tail⟩

/-- Two strings without a mark, up to which two longer ones agree, are equal. -/
theorem Framed.front_eq {mark : β} {front front' rest rest' : List β} (clean : mark ∉ front) (clean' : mark ∉ front')
    (same : front ++ mark :: rest = front' ++ mark :: rest') : front = front' ∧ rest = rest' := by
  induction front generalizing front' with
  | nil =>
    cases front' with
    | nil => exact ⟨rfl, (List.cons.inj same).2⟩
    | cons x front' => exact absurd (List.mem_cons.mpr (.inl (List.cons.inj same).1)) clean'
  | cons x front ih =>
    cases front' with
    | nil => exact absurd (List.mem_cons.mpr (.inl (List.cons.inj same).1.symm)) clean
    | cons y front' =>
      obtain ⟨head, tail⟩ := List.cons.inj same
      obtain ⟨fronts, rests⟩ := ih (fun member => clean (List.mem_cons_of_mem _ member))
        (fun member => clean' (List.mem_cons_of_mem _ member)) tail
      exact ⟨by rw [head, fronts], rests⟩

/-- Encodings that do not contain a mark may end with it. -/
theorem Framed.terminated {mark : β} (distinct : valid.InjOn encode) (clean : ∀ a ∈ valid, mark ∉ encode a) :
    Framed valid fun a => encode a ++ [mark] := by
  intro a inside b inside' rest rest' same
  rw [List.append_assoc, List.append_assoc] at same
  obtain ⟨front, tail⟩ := Framed.front_eq (clean a inside) (clean b inside') same
  exact ⟨distinct inside inside' front, tail⟩

/-- The byte of a word at a position, counted from the lowest. -/
def UInt64.byteAt (x : UInt64) (i : Nat) : UInt8 := (x >>> (8 * UInt64.ofNat i)).toUInt8

theorem UInt64.toNat_byteAt (x : UInt64) {i : Nat} (inside : i < 8) : (x.byteAt i).toNat = (x.toNat >>> (8 * i)) % 256 := by
  have small : i < UInt64.size := by
    unfold UInt64.size
    omega
  have shift : (8 * UInt64.ofNat i).toNat = 8 * i := by
    rw [UInt64.toNat_mul, UInt64.toNat_ofNat_of_lt' small]
    exact Nat.mod_eq_of_lt (by change 8 * i < 18446744073709551616; omega)
  have below : 8 * i % 64 = 8 * i := Nat.mod_eq_of_lt (by omega)
  simp [byteAt, shift, below]

/-- A number is determined by as many bytes as it has. -/
theorem Nat.eq_of_bytes {n x y : Nat} (bound : x >>> (8 * n) = 0) (bound' : y >>> (8 * n) = 0)
    (same : ∀ i < n, (x >>> (8 * i)) % 256 = (y >>> (8 * i)) % 256) : x = y := by
  induction n generalizing x y with
  | zero => exact bound.trans bound'.symm
  | succ n ih =>
    -- the lowest byte, and by induction the number without it
    have lowest : x % 256 = y % 256 := same 0 n.succ_pos
    have shifted : ∀ z i : Nat, (z >>> 8) >>> (8 * i) = z >>> (8 * (i + 1)) := by
      intro z i
      rw [← Nat.shiftRight_add]
      congr 1
      omega
    have others : x >>> 8 = y >>> 8 := by
      refine ih (by rwa [shifted]) (by rwa [shifted]) fun i inside => ?_
      rw [shifted, shifted]
      exact same (i + 1) (Nat.succ_lt_succ inside)
    rw [Nat.shiftRight_eq_div_pow, Nat.shiftRight_eq_div_pow] at others
    omega

/-- Eight bytes determine a word. -/
theorem UInt64.eq_of_byteAt {x y : UInt64} (same : ∀ i < 8, x.byteAt i = y.byteAt i) : x = y := by
  refine UInt64.toNat_inj.mp (@Nat.eq_of_bytes 8 _ _ (Nat.shiftRight_eq_zero _ _ x.toNat_lt)
    (Nat.shiftRight_eq_zero _ _ y.toNat_lt) fun i inside => ?_)
  rw [← x.toNat_byteAt inside, ← y.toNat_byteAt inside, same i inside]
