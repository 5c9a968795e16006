import Bius.Zoned

/- The zone table as `initialize_zone_info` computes it. `ZONE_SIZE` and `SECTOR_SIZE`
   are `int` constants and the index of the loop is an `int`, so the product
   `ZONE_SIZE / SECTOR_SIZE * i` is formed in 32 bits (`toInt32`) and only then widened
   to the `__u64` fields of `struct blk_zone` (`toU64`), while `zone_number` divides in
   64 bits. From 2^31 on the product overflows a signed `int`, which C leaves undefined:
   `toInt32` takes the 32-bit wrap for it, and a compiler that relies on there being no
   overflow may form the product in 64 bits and store the right start.

   `intZoneInfo_eq`: as long as the last zone starts below sector 2^31, the table is the
   one of `initialZone`, on which the rest of the development works; this covers
   `zoned-ramdisk`. `geometry_iff`: for the zones of `zoned-passthrough` this is so for
   disks of up to 2048 zones (1 TiB), and on no larger disk is the geometry right. -/
namespace Bius

/-! ## `int` arithmetic -/

theorem toU64_of_lt {n : Nat} (h : n < 2 ^ 64) : toU64 n = n := by
  unfold toU64
  omega

/-- A natural number survives the way through an `int` exactly if it fits. -/
theorem toU64_toInt32 {n : Nat} (hn : n < 2 ^ 63) : toU64 (toInt32 n) = n ↔ n < 2 ^ 31 := by
  unfold toU64 toInt32
  constructor
  · intro h
    -- a value of 2^31 or more comes back below 2^31, or sign-extended to 2^64 - 2^31 or more
    by_contra hge
    omega
  · intro h
    omega

/-! ## `initialize_zone_info` -/

/-- The body of the loops of `initialize_zone_info` for index `i`. -/
def intZone (zoneSize : Int) (conventional : Bool) (i : Nat) : Zone where
  start := toU64 (toInt32 (zoneSize / sectorSize * i))
  len := toU64 (zoneSize / sectorSize)
  wp := toU64 (toInt32 (zoneSize / sectorSize * i))
  conventional := conventional
  cond := if conventional then .notWp else .empty
  capacity := toU64 (zoneSize / sectorSize)

/-- One of its loops, over `n` more zones from `i` on. -/
def intZones (zoneSize : Int) (conventional : Bool) : Nat → Nat → (Nat → Zone) → Nat → Zone
  | 0, _, zoneInfo => zoneInfo
  | n + 1, i, zoneInfo =>
    intZones zoneSize conventional n (i + 1) (Function.update zoneInfo i (intZone zoneSize conventional i))

/-- The table that `initialize_zone_info` leaves, after its `memset`. -/
def intZoneInfo (zoneSize : Int) (numZones numConventionalZones : Nat) : Nat → Zone :=
  intZones zoneSize false (numZones - numConventionalZones) numConventionalZones
    (intZones zoneSize true numConventionalZones 0 (fun _ => ⟨0, 0, 0, true, .notWp, 0⟩))

theorem intZones_apply (zoneSize : Int) (conventional : Bool) (n i : Nat) (zoneInfo : Nat → Zone) (z : Nat) :
    intZones zoneSize conventional n i zoneInfo z =
      if i ≤ z ∧ z < i + n then intZone zoneSize conventional z else zoneInfo z := by
  induction n generalizing i zoneInfo with
  | zero =>
    rw [if_neg (by omega)]
    rfl
  | succ n ih =>
    rw [intZones, ih]
    by_cases hz : z = i
    · subst hz
      rw [if_neg (by omega), if_pos (by omega), Function.update_self]
    · rw [Function.update_of_ne hz]
      by_cases hlt : i ≤ z ∧ z < i + (n + 1)
      · rw [if_pos (by omega), if_pos hlt]
      · rw [if_neg (by omega), if_neg hlt]

theorem intZoneInfo_apply (zoneSize : Int) {numZones numConventionalZones z : Nat} (hz : z < numZones) :
    intZoneInfo zoneSize numZones numConventionalZones z =
      intZone zoneSize (decide (z < numConventionalZones)) z := by
  unfold intZoneInfo
  rw [intZones_apply, intZones_apply]
  by_cases hconv : z < numConventionalZones
  · rw [if_neg (by omega), if_pos (by omega), decide_eq_true hconv]
  · rw [if_pos (by omega), decide_eq_false hconv]

/-- Where no start overflows, the table is that of `initialZone`. -/
theorem intZoneInfo_eq (cfg : ZonedConfig) (hconv : cfg.numConventionalZones ≤ cfg.numZones)
    (hsectors : cfg.zoneSectors < 2 ^ 31) (hlast : ∀ z < cfg.numZones, cfg.zoneSectors * z < 2 ^ 31) :
    intZoneInfo ((cfg.zoneSectors * sectorSize : Nat) : Int) cfg.numZones cfg.numConventionalZones = initialZone cfg := by
  funext z
  have hdiv : (((cfg.zoneSectors * sectorSize : Nat) : Int) / (sectorSize : Nat)) = (cfg.zoneSectors : Nat) := by
    rw [← Int.natCast_ediv, Nat.mul_div_cancel _ (by decide)]
  have hlen : toU64 (cfg.zoneSectors : Int) = cfg.zoneSectors := toU64_of_lt (by omega)
  unfold initialZone
  by_cases hz : z < cfg.numZones
  · have hstart : toU64 (toInt32 ((cfg.zoneSectors : Int) * (z : Int))) = cfg.zoneSectors * z := by
      rw [← Int.natCast_mul]
      have hlt := hlast z hz
      exact (toU64_toInt32 (by omega)).2 hlt
    rw [intZoneInfo_apply _ hz]
    by_cases hc : z < cfg.numConventionalZones
    · rw [if_pos hc, decide_eq_true hc, intZone, hdiv, hstart, hlen]
      rfl
    · rw [if_neg hc, if_pos hz, decide_eq_false hc, intZone, hdiv, hstart, hlen]
      rfl
  · rw [if_neg (by omega), if_neg hz, intZoneInfo, intZones_apply, intZones_apply, if_neg (by omega), if_neg (by omega)]

/-! ## `examples/zoned-passthrough.c` -/

namespace Passthrough

/-- `ZONE_SIZE` of `zoned-passthrough`. -/
def zoneSize : Nat := 512 * 1024 * 1024

/-- `num_zones`, of a `zoned_disk_size` that `main` has rounded down to whole zones. -/
def numZones (diskSize : Nat) : Nat := diskSize / zoneSize

/-- The table of a disk; `zoned-passthrough` has no conventional zones. From zone 2048 on
    the product of `initialize_zone_info` overflows a signed `int`: undefined in C, and read
    here as the 32-bit wrap (with optimisation a build may store the right start instead). -/
def zoneInfo (diskSize : Nat) : Nat → Zone := intZoneInfo zoneSize (numZones diskSize) 0

/-- `zone_number`: an `off64_t` divided by an `int`, as an `unsigned int`. -/
def zoneNumber (offset : Int) : Nat := (offset.tdiv zoneSize % 2 ^ 32).toNat

/-- `start * SECTOR_SIZE` of a zone, passed as an `off64_t`. -/
def startOffset (z : Zone) : Int := toInt64 ((z.start * sectorSize % 2 ^ 64 : Nat) : Int)

/-- The geometry of a disk: every zone starts where it should, the zones are contiguous
    and cover the disk, and every zone is found by the offset of its start. -/
structure Geometry (diskSize : Nat) : Prop where
  start : ∀ i < numZones diskSize, (zoneInfo diskSize i).start = i * (zoneSize / sectorSize)
  contiguous : ∀ i, i + 1 < numZones diskSize →
    (zoneInfo diskSize (i + 1)).start = (zoneInfo diskSize i).start + (zoneInfo diskSize i).len
  first : (zoneInfo diskSize 0).start = 0
  last : ((zoneInfo diskSize (numZones diskSize - 1)).start + (zoneInfo diskSize (numZones diskSize - 1)).len) *
    sectorSize = diskSize
  number : ∀ i < numZones diskSize, zoneNumber (startOffset (zoneInfo diskSize i)) = i

variable {diskSize i : Nat}

theorem zoneInfo_len (hi : i < numZones diskSize) : (zoneInfo diskSize i).len = zoneSize / sectorSize := by
  unfold zoneInfo
  rw [intZoneInfo_apply _ hi]
  rfl

theorem zoneInfo_start (hi : i < numZones diskSize) :
    (zoneInfo diskSize i).start = toU64 (toInt32 ((i * (zoneSize / sectorSize) : Nat) : Int)) := by
  unfold zoneInfo
  rw [intZoneInfo_apply _ hi]
  rw [intZone, ← Int.natCast_ediv, ← Int.natCast_mul, Nat.mul_comm]

/-- Zone 2048 is the first one whose start overflows. -/
theorem start_eq_iff (hi : i < numZones diskSize) (hzones : numZones diskSize < 2 ^ 31) :
    (zoneInfo diskSize i).start = i * (zoneSize / sectorSize) ↔ i < 2048 := by
  have hsectors : zoneSize / sectorSize = 1048576 := rfl
  rw [zoneInfo_start hi, hsectors, toU64_toInt32 (by omega)]
  omega

/-- The offset of the start of a zone that starts where it should. -/
theorem zoneNumber_start (h : (zoneInfo diskSize i).start = i * (zoneSize / sectorSize)) (hi : i < 2048) :
    zoneNumber (startOffset (zoneInfo diskSize i)) = i := by
  have hoffset : startOffset (zoneInfo diskSize i) = ((i * zoneSize : Nat) : Int) := by
    have hsectors : zoneSize / sectorSize * sectorSize = zoneSize := rfl
    have hsize : zoneSize = 536870912 := rfl
    rw [startOffset, h, Nat.mul_assoc, hsectors, hsize, toInt64]
    omega
  rw [hoffset, zoneNumber, ← Int.ofNat_tdiv, Nat.mul_div_cancel _ (by decide)]
  omega

/-- The table is that of `initialZone` as long as no start overflows. -/
theorem zoneInfo_eq_iff (hpos : 0 < numZones diskSize) (hzones : numZones diskSize < 2 ^ 31) {cfg : ZonedConfig}
    (hcfg : cfg.numZones = numZones diskSize) (hsectors : cfg.zoneSectors = zoneSize / sectorSize)
    (hconv : cfg.numConventionalZones = 0) : zoneInfo diskSize = initialZone cfg ↔ numZones diskSize ≤ 2048 := by
  have hlen : cfg.zoneSectors = 1048576 := hsectors
  constructor
  · intro h
    -- `initialZone` has the last zone where it should start
    have hlast : (zoneInfo diskSize (numZones diskSize - 1)).start =
        (numZones diskSize - 1) * (zoneSize / sectorSize) := by
      rw [h, initialZone, if_neg (by omega), if_pos (by omega), hsectors, Nat.mul_comm]
    have hlt := (start_eq_iff (by omega) hzones).1 hlast
    omega
  · intro h
    have hsize : (zoneSize : Int) = ((cfg.zoneSectors * sectorSize : Nat) : Int) := by
      rw [hlen]
      rfl
    rw [zoneInfo, ← hcfg, hsize, ← hconv]
    exact intZoneInfo_eq cfg (by omega) (by omega) (fun z hz => by rw [hlen]; omega)

/-- **The geometry of a disk is right exactly up to 2048 zones**, and so is the table that the
    rest of the development starts from. -/
theorem geometry_iff (hpos : 0 < diskSize) (hdvd : zoneSize ∣ diskSize) (hsize : diskSize < 2 ^ 63)
    (hzones : numZones diskSize < 2 ^ 31) :
    (∀ i < numZones diskSize, (zoneInfo diskSize i).start = i * (zoneSize / sectorSize) ↔ i < 2048) ∧
      (Geometry diskSize ↔ diskSize ≤ 2048 * zoneSize) ∧
      (∀ cfg : ZonedConfig, cfg.numZones = numZones diskSize → cfg.zoneSectors = zoneSize / sectorSize →
        cfg.numConventionalZones = 0 → (zoneInfo diskSize = initialZone cfg ↔ diskSize ≤ 2048 * zoneSize)) := by
  obtain ⟨n, rfl⟩ := hdvd
  have hzs : 0 < zoneSize := by decide
  have hn : numZones (zoneSize * n) = n := Nat.mul_div_cancel_left n hzs
  have hnpos : 0 < n := Nat.pos_of_mul_pos_left hpos
  have hle : n ≤ 2048 ↔ zoneSize * n ≤ 2048 * zoneSize := by
    rw [Nat.mul_comm zoneSize n]
    exact (Nat.mul_le_mul_right_iff hzs).symm
  refine ⟨fun i hi => start_eq_iff hi hzones, ⟨fun h => ?_, fun h => ?_⟩, fun cfg hcfg hsectors hconv => ?_⟩
  · -- the start of the last zone does not overflow
    have hlt := (@start_eq_iff (zoneSize * n) (n - 1) (by omega) hzones).1 (h.start _ (by omega))
    exact hle.1 (by omega)
  · have hn2048 := hle.2 h
    have hstart : ∀ i < n, (zoneInfo (zoneSize * n) i).start = i * (zoneSize / sectorSize) :=
      fun i hi => (start_eq_iff (by omega) hzones).2 (by omega)
    have hlen : ∀ i < n, (zoneInfo (zoneSize * n) i).len = zoneSize / sectorSize :=
      fun i hi => zoneInfo_len (by omega)
    constructor
    · rw [hn]
      exact hstart
    · intro i hi
      rw [hn] at hi
      rw [hstart _ hi, hstart i (by omega), hlen i (by omega), Nat.succ_mul]
    · rw [hstart 0 hnpos, Nat.zero_mul]
    · rw [hn, hstart _ (by omega), hlen _ (by omega), ← Nat.succ_mul, Nat.succ_eq_add_one, Nat.sub_add_cancel hnpos,
        Nat.mul_assoc, show zoneSize / sectorSize * sectorSize = zoneSize from rfl, Nat.mul_comm]
    · intro i hi
      rw [hn] at hi
      exact zoneNumber_start (hstart i hi) (by omega)
  · rw [zoneInfo_eq_iff (by omega) hzones hcfg hsectors hconv, hn]
    exact hle

/-- A disk of 1 TiB. -/
theorem geometry_iff_oneTiB : Geometry (2048 * zoneSize) ∧
    zoneInfo (2048 * zoneSize) = initialZone ⟨2048, 1048576, 0, 0, 0, by decide, by decide, by decide⟩ := by
  obtain ⟨-, hgeometry, htable⟩ := @geometry_iff (2048 * zoneSize) (by decide) (Nat.dvd_mul_left _ _)
    (by decide) (by decide)
  exact ⟨hgeometry.2 le_rfl, (htable _ (by decide) (by decide) rfl).2 le_rfl⟩

/-- On a disk one zone larger the last zone starts at 2^64 - 2^31. -/
theorem geometry_overflows :
    0 < 2049 * zoneSize ∧ zoneSize ∣ 2049 * zoneSize ∧ 2049 * zoneSize < 2 ^ 63 ∧
      numZones (2049 * zoneSize) < 2 ^ 31 ∧
      2048 < numZones (2049 * zoneSize) ∧ (zoneInfo (2049 * zoneSize) 2048).start = 2 ^ 64 - 2 ^ 31 ∧
      (zoneInfo (2049 * zoneSize) 2048).start ≠ 2048 * (zoneSize / sectorSize) := by
  have hlt : 2048 < numZones (2049 * zoneSize) := by decide
  have hstart : (zoneInfo (2049 * zoneSize) 2048).start = 2 ^ 64 - 2 ^ 31 := by
    rw [zoneInfo_start hlt]
    decide
  refine ⟨by decide, ⟨2049, rfl⟩, by decide, by decide, hlt, hstart, ?_⟩
  rw [hstart]
  decide

end Passthrough

end Bius
