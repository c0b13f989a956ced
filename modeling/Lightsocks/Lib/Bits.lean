import Mathlib.Data.List.Basic
import Mathlib.Data.List.Induction
import Mathlib.Data.Nat.Bitwise
import Mathlib.Tactic.Ring

/-
  Digits as bit strings. Generic: radix conversions between powers of two, as base64 and its
  relatives do them.

  `bits w n` is the low `w` bits of `n`, most significant first; `ofBits` reads a bit string
  back. `groups w l` cuts a list into full groups of `w` and drops the rest. `regroup w v`
  writes a list of `w`-bit digits out as bits and reads it back as `v`-bit digits, dropping
  leftover bits; `regroupPad w v` fills the last group with zeros instead.
  `regroup_regroupPad`: the first undoes the second when `v ≤ w`. `regroupPad_regroup`: the
  second undoes the first but for the leftover bits, which come back as zeros.
-/

namespace Lightsocks.Lib

variable {α β : Type*}

/-- There and back, element by element. -/
theorem map_map_eq_self {f : α → β} {g : β → α} {l : List α} (h : ∀ a ∈ l, g (f a) = a) :
    (l.map f).map g = l := by
  rw [List.map_map]
  calc l.map (g ∘ f) = l.map id := List.map_congr_left h
    _ = l := List.map_id l

/-! ## Bit strings -/

/-- The low `w` bits of `n`, most significant first. -/
def bits : ℕ → ℕ → List Bool
  | 0, _ => []
  | w + 1, n => n.testBit w :: bits w n

/-- The number a bit string spells, most significant bit first. -/
def ofBits (bs : List Bool) : ℕ := bs.foldl (fun n b => 2 * n + b.toNat) 0

@[simp] theorem length_bits (w n : ℕ) : (bits w n).length = w := by
  induction w with
  | zero => rfl
  | succ w ih => simp [bits, ih]

/-- Splitting a word: its high bits are the bits of the quotient. -/
theorem bits_add (u v n : ℕ) : bits (u + v) n = bits u (n / 2 ^ v) ++ bits v n := by
  induction u with
  | zero => simp [bits]
  | succ u ih =>
      rw [Nat.add_right_comm, bits, ih, bits, List.cons_append, Nat.testBit_div_two_pow,
        Nat.add_comm]

/-- Only the low bits count. -/
theorem bits_mod (v n : ℕ) : bits v (n % 2 ^ v) = bits v n := by
  have key : ∀ k ≤ v, bits k (n % 2 ^ v) = bits k n := by
    intro k
    induction k with
    | zero => intro _; rfl
    | succ k ih =>
        intro hk
        rw [bits, bits, ih (by omega), Nat.testBit_mod_two_pow]
        simp
        omega
  exact key v (Nat.le_refl v)

/-- Cutting a word in two. -/
theorem bits_split (u v n : ℕ) : bits (u + v) n = bits u (n / 2 ^ v) ++ bits v (n % 2 ^ v) := by
  rw [bits_add, bits_mod]

/-- Gluing two words. -/
theorem bits_glue (u v a b : ℕ) (hb : b < 2 ^ v) :
    bits (u + v) (a * 2 ^ v + b) = bits u a ++ bits v b := by
  have hdiv : (a * 2 ^ v + b) / 2 ^ v = a := by
    rw [Nat.mul_comm, Nat.mul_add_div (Nat.two_pow_pos v), Nat.div_eq_of_lt hb, Nat.add_zero]
  have hmod : (a * 2 ^ v + b) % 2 ^ v = b := by
    rw [Nat.mul_comm, Nat.mul_add_mod, Nat.mod_eq_of_lt hb]
  rw [bits_split, hdiv, hmod]

theorem foldl_bits (w n acc : ℕ) :
    (bits w n).foldl (fun n b => 2 * n + b.toNat) acc = acc * 2 ^ w + n % 2 ^ w := by
  induction w generalizing acc with
  | zero => simp [bits, Nat.mod_one]
  | succ w ih =>
      rw [bits, List.foldl_cons, ih, Nat.mod_pow_succ, Nat.toNat_testBit]
      ring

theorem ofBits_bits (w n : ℕ) : ofBits (bits w n) = n % 2 ^ w := by
  unfold ofBits
  rw [foldl_bits, Nat.zero_mul, Nat.zero_add]

theorem ofBits_append_singleton (bs : List Bool) (b : Bool) :
    ofBits (bs ++ [b]) = 2 * ofBits bs + b.toNat := by
  unfold ofBits
  rw [List.foldl_append]
  rfl

theorem bits_ofBits (bs : List Bool) : bits bs.length (ofBits bs) = bs := by
  induction bs using List.reverseRecOn with
  | nil => rfl
  | append_singleton bs b ih =>
      rw [List.length_append, List.length_singleton, bits_add, ofBits_append_singleton]
      have hdiv : (2 * ofBits bs + b.toNat) / 2 ^ 1 = ofBits bs := by
        have hb := Bool.toNat_lt b
        omega
      rw [hdiv, ih]
      cases b <;> simp [bits, Nat.testBit, Nat.add_mod]

theorem ofBits_lt (bs : List Bool) : ofBits bs < 2 ^ bs.length := by
  have h := ofBits_bits bs.length (ofBits bs)
  rw [bits_ofBits] at h
  rw [h]
  exact Nat.mod_lt _ (Nat.two_pow_pos _)

/-! ## Full groups -/

/-- The full groups of `w` consecutive entries of `l`; what is left over is dropped. -/
def groups (w : ℕ) (l : List α) : List (List α) :=
  (List.range (l.length / w)).map fun i => (l.drop (w * i)).take w

theorem length_groups (w : ℕ) (l : List α) : (groups w l).length = l.length / w := by
  simp [groups]

theorem groups_of_length_lt {w : ℕ} {l : List α} (h : l.length < w) : groups w l = [] := by
  simp [groups, Nat.div_eq_of_lt h]

theorem groups_append {w : ℕ} (hw : 0 < w) {a : List α} (ha : a.length = w) (l : List α) :
    groups w (a ++ l) = a :: groups w l := by
  unfold groups
  have hlen : (a ++ l).length / w = l.length / w + 1 := by
    rw [List.length_append, ha, Nat.add_div_left _ hw]
  rw [hlen, List.range_succ_eq_map, List.map_cons, List.map_map]
  congr 1
  · simp [← ha]
  · apply List.map_congr_left
    intro i _
    have hdrop : w * (i + 1) = a.length + w * i := by rw [ha, Nat.mul_succ, Nat.add_comm]
    show ((a ++ l).drop (w * (i + 1))).take w = _
    rw [hdrop, List.drop_length_add_append]

/-- Grouping undoes a map that writes every entry as `w` symbols, up to a short tail. -/
theorem groups_flatMap_append {w : ℕ} (hw : 0 < w) (f : α → List β) (hf : ∀ a, (f a).length = w)
    (ds : List α) {r : List β} (hr : r.length < w) :
    groups w (ds.flatMap f ++ r) = ds.map f := by
  induction ds with
  | nil => exact groups_of_length_lt hr
  | cons d ds ih =>
      rw [List.flatMap_cons, List.append_assoc, groups_append hw (hf d), ih, List.map_cons]

/-- A list whose length is a multiple of `w` is the concatenation of its groups. -/
theorem flatten_groups {w k : ℕ} (hw : 0 < w) (l : List α) (h : l.length = w * k) :
    (groups w l).flatten = l := by
  induction k generalizing l with
  | zero =>
      have hl : l = [] := List.length_eq_zero_iff.mp (by simpa using h)
      simp [hl, groups]
  | succ k ih =>
      have htake : (l.take w).length = w := by
        rw [List.length_take, h, Nat.mul_succ]
        omega
      have hdrop : (l.drop w).length = w * k := by
        rw [List.length_drop, h, Nat.mul_succ]
        omega
      have hsplit := groups_append hw htake (l.drop w)
      rw [List.take_append_drop] at hsplit
      rw [hsplit, List.flatten_cons, ih _ hdrop, List.take_append_drop]

theorem length_of_mem_groups {w : ℕ} {l g : List α} (hg : g ∈ groups w l) : g.length = w := by
  obtain ⟨i, hi, rfl⟩ := List.mem_map.mp hg
  have hi' := List.mem_range.mp hi
  have hle : w * (i + 1) ≤ l.length :=
    (Nat.mul_le_mul_left w hi').trans (Nat.mul_div_le l.length w)
  rw [Nat.mul_succ] at hle
  rw [List.length_take, List.length_drop]
  omega

/-- The groups of a list begin the groups of every extension of it. -/
theorem groups_eq_take (w : ℕ) (l r : List α) :
    groups w l = (groups w (l ++ r)).take (l.length / w) := by
  unfold groups
  have hle : l.length / w ≤ (l ++ r).length / w := by
    rw [List.length_append]
    exact Nat.div_le_div_right (Nat.le_add_right _ _)
  rw [← List.map_take, List.take_range, Nat.min_eq_left hle]
  apply List.map_congr_left
  intro i hi
  have hi' : w * (i + 1) ≤ l.length :=
    (Nat.mul_le_mul_left w (List.mem_range.mp hi)).trans (Nat.mul_div_le l.length w)
  rw [Nat.mul_succ] at hi'
  rw [List.drop_append_of_le_length (by omega), List.take_append_of_le_length]
  rw [List.length_drop]
  omega

/-! ## Changing the digit width -/

/-- Read `w`-bit digits as `v`-bit digits, dropping leftover bits. -/
def regroup (w v : ℕ) (ds : List ℕ) : List ℕ := (groups v (ds.flatMap (bits w))).map ofBits

/-- Fill the last group of `v` with zeros. -/
def padBits (v : ℕ) (bs : List Bool) : List Bool :=
  bs ++ List.replicate ((v - bs.length % v) % v) false

/-- Read `w`-bit digits as `v`-bit digits, filling the last one with zeros. -/
def regroupPad (w v : ℕ) (ds : List ℕ) : List ℕ :=
  (groups v (padBits v (ds.flatMap (bits w)))).map ofBits

theorem length_flatMap_bits (w : ℕ) (ds : List ℕ) :
    (ds.flatMap (bits w)).length = w * ds.length := by
  induction ds with
  | nil => rfl
  | cons d ds ih => rw [List.flatMap_cons, List.length_append, ih, length_bits, List.length_cons,
      Nat.mul_succ, Nat.add_comm]

theorem length_regroup (w v : ℕ) (ds : List ℕ) :
    (regroup w v ds).length = w * ds.length / v := by
  rw [regroup, List.length_map, length_groups, length_flatMap_bits]

theorem length_padBits (v : ℕ) (hv : 0 < v) (bs : List Bool) :
    ∃ k, (padBits v bs).length = v * k := by
  refine ⟨(bs.length + (v - bs.length % v) % v) / v, ?_⟩
  rw [padBits, List.length_append, List.length_replicate]
  refine (Nat.mul_div_cancel' ?_).symm
  rw [Nat.dvd_iff_mod_eq_zero, Nat.add_mod, Nat.mod_mod]
  have hlt := Nat.mod_lt bs.length hv
  by_cases h0 : bs.length % v = 0
  · simp [h0]
  · rw [Nat.mod_eq_of_lt (show v - bs.length % v < v by omega)]
    have hsum : bs.length % v + (v - bs.length % v) = v := by omega
    rw [hsum, Nat.mod_self]

theorem flatMap_bits_map_ofBits {v : ℕ} (gs : List (List Bool)) (h : ∀ g ∈ gs, g.length = v) :
    (gs.map ofBits).flatMap (bits v) = gs.flatten := by
  induction gs with
  | nil => rfl
  | cons g gs ih =>
      have hg : bits v (ofBits g) = g := by
        rw [← h g List.mem_cons_self, bits_ofBits]
      rw [List.map_cons, List.flatMap_cons, hg, ih fun g' hg' => h g' (List.mem_cons_of_mem g hg'),
        List.flatten_cons]

/-- Dropping leftover bits undoes filling with zeros, from narrower digits back to wider ones. -/
theorem regroup_regroupPad {w v : ℕ} (hv : 0 < v) (hvw : v ≤ w) (ds : List ℕ)
    (hds : ∀ d ∈ ds, d < 2 ^ w) : regroup v w (regroupPad w v ds) = ds := by
  have hw : 0 < w := by omega
  obtain ⟨k, hk⟩ := length_padBits v hv (ds.flatMap (bits w))
  unfold regroup regroupPad
  rw [flatMap_bits_map_ofBits _ fun g hg => length_of_mem_groups hg, flatten_groups hv _ hk,
    padBits, groups_flatMap_append hw (bits w) (length_bits w)]
  · apply map_map_eq_self
    intro d hd
    rw [ofBits_bits, Nat.mod_eq_of_lt (hds d hd)]
  · rw [List.length_replicate]
    exact lt_of_lt_of_le (Nat.mod_lt _ hv) hvw

/-- The digits of a prefix begin the digits of the whole. -/
theorem regroup_eq_take (w v : ℕ) (ds rest : List ℕ) :
    regroup w v ds = (regroup w v (ds ++ rest)).take (w * ds.length / v) := by
  unfold regroup
  rw [groups_eq_take v (ds.flatMap (bits w)) (rest.flatMap (bits w)), ← List.flatMap_append,
    length_flatMap_bits, List.map_take]

theorem groups_flatMap_bits_append {v : ℕ} (hv : 0 < v) (es : List ℕ) (bs : List Bool)
    (hes : ∀ e ∈ es, e < 2 ^ v) :
    (groups v (es.flatMap (bits v) ++ bs)).map ofBits = es ++ (groups v bs).map ofBits := by
  induction es with
  | nil => rfl
  | cons e es ih =>
      rw [List.flatMap_cons, List.append_assoc, groups_append hv (length_bits v e), List.map_cons,
        ih fun e' he' => hes e' (List.mem_cons_of_mem e he'), ofBits_bits,
        Nat.mod_eq_of_lt (hes e List.mem_cons_self), List.cons_append]

/-- A block of digits whose bits are a whole number of target digits regroups on its own. -/
theorem regroup_append {w v : ℕ} (hv : 0 < v) (ds es rest : List ℕ)
    (h : ds.flatMap (bits w) = es.flatMap (bits v)) (hes : ∀ e ∈ es, e < 2 ^ v) :
    regroup w v (ds ++ rest) = es ++ regroup w v rest := by
  unfold regroup
  rw [List.flatMap_append, h, groups_flatMap_bits_append hv es _ hes]

theorem padBits_append {v k : ℕ} (as bs : List Bool) (h : as.length = v * k) :
    padBits v (as ++ bs) = as ++ padBits v bs := by
  unfold padBits
  rw [List.append_assoc, List.length_append, h, Nat.mul_add_mod]

/-- The same for `regroupPad`. -/
theorem regroupPad_append {w v : ℕ} (hv : 0 < v) (ds es rest : List ℕ)
    (h : ds.flatMap (bits w) = es.flatMap (bits v)) (hes : ∀ e ∈ es, e < 2 ^ v) :
    regroupPad w v (ds ++ rest) = es ++ regroupPad w v rest := by
  unfold regroupPad
  rw [List.flatMap_append, h, padBits_append _ _ (length_flatMap_bits v es),
    groups_flatMap_bits_append hv es _ hes]

@[simp] theorem bits_zero (w : ℕ) : bits w 0 = List.replicate w false := by
  induction w with
  | zero => rfl
  | succ w ih => rw [bits, ih, Nat.zero_testBit, List.replicate_succ]

theorem flatMap_bits_zeros (w k : ℕ) :
    (List.replicate k 0).flatMap (bits w) = List.replicate (w * k) false := by
  induction k with
  | zero => rfl
  | succ k ih =>
      rw [List.replicate_succ, List.flatMap_cons, ih, bits_zero, List.replicate_append_replicate,
        Nat.mul_succ, Nat.add_comm]

/-- Zeros behind a bit string only extend its filled form. -/
theorem padBits_append_zeros {v : ℕ} (hv : 0 < v) (bs : List Bool) (n : ℕ) :
    ∃ m, padBits v (bs ++ List.replicate n false) = padBits v bs ++ List.replicate m false := by
  obtain ⟨k, hk⟩ := length_padBits v hv bs
  obtain ⟨k', hk'⟩ := length_padBits v hv (bs ++ List.replicate n false)
  simp only [padBits, List.length_append, List.length_replicate] at hk hk'
  have hp : (v - bs.length % v) % v < v := Nat.mod_lt _ hv
  have hlt : v * k < v * (k' + 1) := by
    rw [Nat.mul_succ]
    omega
  have hle : v * k ≤ v * k' :=
    Nat.mul_le_mul_left v (Nat.lt_succ_iff.mp (Nat.lt_of_mul_lt_mul_left hlt))
  refine ⟨v * k' - v * k, ?_⟩
  simp only [padBits, List.append_assoc, List.length_append, List.length_replicate,
    List.replicate_append_replicate]
  congr 2
  omega

/-- The digits of `ds` begin those of `ds` with zero digits behind it. -/
theorem regroupPad_eq_take {w v : ℕ} (hv : 0 < v) (ds : List ℕ) (k : ℕ) :
    regroupPad w v ds = (regroupPad w v (ds ++ List.replicate k 0)).take
      ((padBits v (ds.flatMap (bits w))).length / v) := by
  unfold regroupPad
  rw [List.flatMap_append, flatMap_bits_zeros]
  obtain ⟨m, hm⟩ := padBits_append_zeros hv (ds.flatMap (bits w)) (w * k)
  rw [hm, ← List.map_take, ← groups_eq_take]

/-- What is left over of a whole number of groups makes no group. -/
theorem groups_append_of_lt {v k : ℕ} (hv : 0 < v) {as bs : List α} (ha : as.length = v * k)
    (hb : bs.length < v) : groups v (as ++ bs) = groups v as := by
  have hk : as.length / v = k := by rw [ha, Nat.mul_div_cancel_left k hv]
  have hlen : (groups v (as ++ bs)).length = k := by
    rw [length_groups, List.length_append, ha, Nat.mul_add_div hv, Nat.div_eq_of_lt hb,
      Nat.add_zero]
  rw [groups_eq_take v as bs, hk, List.take_of_length_le hlen.le]

theorem regroup_lt {w v : ℕ} {ds : List ℕ} : ∀ e ∈ regroup w v ds, e < 2 ^ v := by
  intro e he
  obtain ⟨g, hg, rfl⟩ := List.mem_map.mp he
  have hlt := ofBits_lt g
  rwa [length_of_mem_groups hg] at hlt

/-- The bits of the digits read, without those left over. -/
theorem flatMap_bits_regroup {w v k : ℕ} (hv : 0 < v) {ds : List ℕ} {as bs : List Bool}
    (h : ds.flatMap (bits w) = as ++ bs) (ha : as.length = v * k) (hb : bs.length < v) :
    (regroup w v ds).flatMap (bits v) = as := by
  unfold regroup
  rw [flatMap_bits_map_ofBits _ fun g hg => length_of_mem_groups hg, h,
    groups_append_of_lt hv ha hb, flatten_groups hv _ ha]

/-- Filling the high bits of a digit with zeros clears the low ones. -/
theorem padBits_bits {u : ℕ} (hu : 0 < u) (r d : ℕ) :
    padBits (u + r) (bits u (d / 2 ^ r)) = bits (u + r) (d / 2 ^ r * 2 ^ r) := by
  have hglue := bits_glue u r (d / 2 ^ r) 0 (Nat.two_pow_pos r)
  rw [Nat.add_zero, bits_zero] at hglue
  have hzeros : (u + r - u % (u + r)) % (u + r) = r := by
    by_cases h0 : r = 0
    · simp [h0]
    · rw [Nat.mod_eq_of_lt (by omega : u < u + r), Nat.add_sub_cancel_left,
        Nat.mod_eq_of_lt (by omega)]
  rw [padBits, length_bits, hzeros, hglue]

/-- The other way round, digits that end inside a group of `v` bits come back with the leftover
    bits of the last one cleared. -/
theorem regroupPad_regroup {u r v k : ℕ} (hu : 0 < u) (hr : r < v) (ds : List ℕ) {d : ℕ}
    (hds : ∀ e ∈ ds, e < 2 ^ (u + r)) (hd : d < 2 ^ (u + r))
    (hk : (u + r) * ds.length + u = v * k) :
    regroupPad v (u + r) (regroup (u + r) v (ds ++ [d])) = ds ++ [d / 2 ^ r * 2 ^ r] := by
  have hbits : (ds ++ [d]).flatMap (bits (u + r)) =
      (ds.flatMap (bits (u + r)) ++ bits u (d / 2 ^ r)) ++ bits r (d % 2 ^ r) := by
    rw [List.flatMap_append, List.flatMap_singleton, bits_split, List.append_assoc]
  have hread := flatMap_bits_regroup (by omega : 0 < v) hbits
    (by rw [List.length_append, length_flatMap_bits, length_bits, hk])
    (by rw [length_bits]; exact hr)
  have hlt : ∀ e ∈ ds ++ [d / 2 ^ r * 2 ^ r], e < 2 ^ (u + r) := by
    intro e he
    rcases List.mem_append.mp he with he | he
    · exact hds e he
    · rw [List.mem_singleton.mp he]
      exact lt_of_le_of_lt (Nat.div_mul_le_self d (2 ^ r)) hd
  have hgroups := groups_flatMap_bits_append (by omega : 0 < u + r) _ [] hlt
  have hnil : groups (u + r) ([] : List Bool) = [] :=
    groups_of_length_lt (by show 0 < u + r; omega)
  rw [hnil, List.append_nil, List.map_nil, List.append_nil, List.flatMap_append,
    List.flatMap_singleton] at hgroups
  unfold regroupPad
  rw [hread, padBits_append _ _ (length_flatMap_bits (u + r) ds), padBits_bits hu, hgroups]

/-! ## Bytes -/

/-- A property of bytes is checked by going through the 256 of them. -/
theorem forall_uint8 {P : UInt8 → Prop} (h : ∀ n < 256, P (UInt8.ofNat n)) (b : UInt8) : P b := by
  have hb := h b.toNat b.toNat_lt
  rwa [UInt8.ofNat_toNat] at hb

end Lightsocks.Lib
