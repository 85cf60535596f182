import LinuxOS.Kernel.Lib

/-!
# Copies

What memory holds behind a copy, and `memmove` of `lib.c` as the loop that its
`rep movsb` is: each byte is read when its turn comes, from the memory that the
bytes before it have changed.
-/

namespace LinuxOS

/-! ## Memory behind a copy -/

theorem memcpy_add (source : Nat → UInt8) (dest m n : UInt32)
    (hfit : m.toNat + n.toNat < 2 ^ 32) :
    memcpy source dest (m + n) =
      memcpy source dest m ++ memcpy (fun index => source (m.toNat + index)) (dest + m) n := by
  have hsum : (m + n).toNat = m.toNat + n.toNat := by
    rw [UInt32.toNat_add, Nat.mod_eq_of_lt hfit]
  simp only [memcpy, hsum, List.range_add, List.map_append, List.map_map]
  refine congrArg _ (List.map_congr_left fun index _ => ?_)
  simp [UInt32.ofNat_add, UInt32.add_assoc]

theorem memcpy_congr {source source' : Nat → UInt8} {n : UInt32}
    (h : ∀ index < n.toNat, source index = source' index) (dest : UInt32) :
    memcpy source dest n = memcpy source' dest n := by
  refine List.map_congr_left fun index hindex => ?_
  rw [h index (List.mem_range.mp hindex)]

theorem apply_copy (source : Nat → UInt8) (dest addr : UInt32) (memory : UInt32 → UInt8)
    {count : Nat} (hshort : count ≤ 2 ^ 32) :
    Stores.apply ((List.range count).map fun index => (dest + UInt32.ofNat index, source index))
        memory addr =
      if (addr - dest).toNat < count then source (addr - dest).toNat else memory addr := by
  induction count with
  | zero => simp [Stores.apply]
  | succ count ih =>
      have hindex : addr = dest + UInt32.ofNat count ↔ (addr - dest).toNat = count := by
        constructor
        · rintro rfl
          simp only [UInt32.add_comm dest, UInt32.add_sub_cancel]
          exact UInt32.toNat_ofNat_of_lt' (by rw [UInt32.size]; omega)
        · intro h
          rw [← h, UInt32.ofNat_toNat, UInt32.add_comm, UInt32.sub_add_cancel]
      rw [List.range_succ, List.map_append, Stores.apply, List.foldl_append]
      simp only [List.map_cons, List.map_nil, List.foldl_cons, List.foldl_nil,
        Function.update_apply, hindex]
      split
      · next heq => rw [if_pos (by omega), heq]
      · next hne =>
          rw [← Stores.apply, ih (by omega)]
          exact if_congr (by omega) rfl rfl

theorem apply_memcpy (source : Nat → UInt8) (dest n addr : UInt32) (memory : UInt32 → UInt8) :
    Stores.apply (memcpy source dest n) memory addr =
      if addr - dest < n then source (addr - dest).toNat else memory addr := by
  rw [memcpy, apply_copy source dest addr memory n.toNat_lt.le]
  exact if_congr UInt32.lt_iff_toNat_lt.symm rfl rfl

theorem apply_memset (s : UInt32) (c : UInt8) (n addr : UInt32) (memory : UInt32 → UInt8) :
    Stores.apply (memset s c n) memory addr = if addr - s < n then c else memory addr := by
  rw [memset, apply_copy (fun _ => c) s addr memory n.toNat_lt.le]
  exact if_congr UInt32.lt_iff_toNat_lt.symm rfl rfl

/-! ## `memmove` -/

/-- `rep movsb`: `count` bytes are left; `delta` is 1, or -1 with the direction flag set. -/
def repMovsb (delta : UInt32) : Nat → UInt32 → UInt32 → (UInt32 → UInt8) → UInt32 → UInt8
  | 0, _, _, memory => memory
  | count + 1, edi, esi, memory =>
      repMovsb delta count (edi + delta) (esi + delta)
        (Function.update memory edi (memory esi))

def memmove (dest src n : UInt32) (memory : UInt32 → UInt8) : UInt32 → UInt8 :=
  if src ≥ dest then repMovsb 1 n.toNat dest src memory
  else repMovsb (-1) n.toNat (dest + n - 1) (src + n - 1) memory

theorem repMovsb_up {distance : UInt32} (count : Nat) (edi : UInt32) (memory : UInt32 → UInt8)
    (hfit : distance.toNat + count ≤ 2 ^ 32) (addr : UInt32) :
    repMovsb 1 count edi (edi + distance) memory addr =
      if (addr - edi).toNat < count then memory (addr + distance) else memory addr := by
  induction count generalizing edi memory with
  | zero => rfl
  | succ count ih =>
      have hsrc : edi + distance + 1 = edi + 1 + distance := by grind
      have hindex : addr - (edi + 1) = addr - edi - 1 := by grind
      rw [repMovsb, hsrc, ih (edi + 1) _ (by omega), hindex]
      by_cases hfirst : addr = edi
      · have hlast : (addr - edi - 1).toNat = 2 ^ 32 - 1 := by
          rw [hfirst, UInt32.sub_self]
          rfl
        rw [hlast, if_neg (by omega), hfirst, Function.update_self, UInt32.sub_self,
          UInt32.toNat_zero, if_pos (Nat.succ_pos count)]
      · have hpos : 1 ≤ (addr - edi).toNat := by
          refine Nat.one_le_iff_ne_zero.mpr fun hzero => hfirst ?_
          have hsame : addr - edi = 0 := UInt32.toNat_inj.mp hzero
          grind
        have hbehind : (addr - edi - 1).toNat + 1 = (addr - edi).toNat := by
          have hone : 1 ≤ addr - edi := UInt32.le_iff_toNat_le.mpr hpos
          rw [UInt32.toNat_sub_of_le _ _ hone]
          exact Nat.sub_add_cancel hpos
        rw [Function.update_of_ne hfirst]
        by_cases hinside : (addr - edi).toNat < count + 1
        · -- the byte that is read lies behind all that has been written
          have hread : addr + distance ≠ edi := by
            intro heq
            have hwrap : (addr - edi) + distance = 0 := by grind
            have hsum := congrArg UInt32.toNat hwrap
            rw [UInt32.toNat_add, UInt32.toNat_zero] at hsum
            omega
          rw [if_pos (by omega), if_pos hinside, Function.update_of_ne hread]
        · rw [if_neg (by omega), if_neg hinside]

theorem memmove_of_le {dest src n : UInt32} (hle : dest ≤ src)
    (hfit : (src - dest).toNat + n.toNat ≤ 2 ^ 32) (memory : UInt32 → UInt8) :
    memmove dest src n memory =
      Stores.apply (memcpy (fun k => memory (src + UInt32.ofNat k)) dest n) memory := by
  funext addr
  have hsrc : dest + (src - dest) = src := by grind
  have hread : src + UInt32.ofNat (addr - dest).toNat = addr + (src - dest) := by
    rw [UInt32.ofNat_toNat]
    grind
  have hcopied := repMovsb_up n.toNat dest memory hfit addr
  rw [hsrc] at hcopied
  rw [memmove, if_pos hle, hcopied, apply_memcpy, hread]
  exact if_congr UInt32.lt_iff_toNat_lt.symm rfl rfl

end LinuxOS
