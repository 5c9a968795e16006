import Mathlib.Logic.Function.Basic
import Bius.DataMapping

/- How a connection gets its window (`bius_dev_mmap`, with `bius_vm_open`). Every page
   of the vma is mapped to the zero page, and the page-table entries of the first
   `BIUS_PTES_PER_COMMAND` pages are looked up and kept in the connection. Either of the
   two loops stops at the first page at which `partial_map_pfn` or `follow_pte` fails;
   `bius_vm_open` then unmaps the vma again, but it is a void function and
   `bius_dev_mmap` returns 0 all the same.

   The two functions of the memory manager are given by the errors they return
   (`MapErrors`); `partial_map_pfn` of one page that fails maps nothing, and
   `zap_vma_ptes` unmaps the pages of the range. A page-table entry is named by the
   address of its page. -/
namespace Bius

/-- `struct vm_area_struct`: page-aligned, of `pages` pages. -/
structure Vma where
  vmStart : Nat
  pages : Nat
  deriving DecidableEq, Repr

/-- The address of page `i`. -/
def Vma.addr (vma : Vma) (i : Nat) : Nat := vma.vmStart + i * pageSize

def Vma.vmEnd (vma : Vma) : Nat := vma.addr vma.pages

/-- The error that each of the two functions returns at an address, if any. -/
structure MapErrors where
  partialMapPfn : Nat → Option Int
  followPte : Nat → Option Int

/-- The fields of a connection that `mmap` is about: the entries are those of the pages
    whose addresses are given. -/
structure WindowConnection where
  vma : Option Vma
  ptes : Nat → Option Nat

/-- What the pages of the process show. -/
abbrev PageTable := Nat → Option Frame

/-! ## `bius_vm_open` -/

/-- The first loop, over `n` more pages from `addr` on. -/
def mapZeroLoop (fails : Nat → Option Int) : Nat → Nat → PageTable → PageTable × Option Int
  | 0, _, table => (table, none)
  | n + 1, addr, table =>
    match fails addr with
    | some err => (table, some err)
    | none => mapZeroLoop fails n (addr + pageSize) (Function.update table addr (some .zero))

/-- The second loop, over `n` more entries from entry `i` on. -/
def followLoop (fails : Nat → Option Int) : Nat → Nat → Nat → (Nat → Option Nat) →
    (Nat → Option Nat) × Option Int
  | 0, _, _, ptes => (ptes, none)
  | n + 1, i, addr, ptes =>
    match fails addr with
    | some err => (ptes, some err)
    | none => followLoop fails n (i + 1) (addr + pageSize) (Function.update ptes i (some addr))

/-- `zap_vma_ptes` of the whole vma. -/
def zapVmaPtes (vma : Vma) (table : PageTable) : PageTable :=
  fun addr => if vma.vmStart ≤ addr ∧ addr < vma.vmEnd then none else table addr

/-- `bius_vm_open`. -/
def biusVmOpen (errs : MapErrors) (conn : WindowConnection) (vma : Vma) (table : PageTable) :
    WindowConnection × PageTable :=
  let mapped := mapZeroLoop errs.partialMapPfn vma.pages vma.vmStart table
  match mapped.2 with
  | some _ => (conn, zapVmaPtes vma mapped.1)
  | none =>
    let followed := followLoop errs.followPte biusPtesPerCommand 0 vma.vmStart conn.ptes
    match followed.2 with
    | some _ => ({ conn with ptes := followed.1 }, zapVmaPtes vma mapped.1)
    | none => ({ conn with ptes := followed.1 }, mapped.1)

/-! ## `bius_dev_mmap` -/

def eBUSY : Int := 16

/-- `bius_dev_mmap`, with its result. -/
def biusDevMmap (errs : MapErrors) (conn : WindowConnection) (vma : Vma) (table : PageTable) :
    WindowConnection × PageTable × Int :=
  if conn.vma.isSome then (conn, table, -eBUSY)
  else if vma.vmEnd - vma.vmStart < biusMaxSizePerCommand then (conn, table, -eINVAL)
  else
    let opened := biusVmOpen errs { conn with vma := some vma } vma table
    (opened.1, opened.2, 0)

/-- The call ends in one of two ways: it returns 0 and the window is complete, or it
    returns an error, keeps the connection's window as it was and leaves no page
    mapped. -/
structure MmapClean (conn : WindowConnection) (vma : Vma) (res : WindowConnection × PageTable × Int) : Prop where
  mapped : res.2.2 = 0 → ∀ i < vma.pages, res.2.1 (vma.addr i) = some .zero
  entries : res.2.2 = 0 → ∀ i < biusPtesPerCommand, res.1.ptes i = some (vma.addr i)
  error : res.2.2 ≠ 0 → res.2.2 < 0
  kept : res.2.2 ≠ 0 → res.1.vma = conn.vma
  unmapped : res.2.2 ≠ 0 → ∀ i < vma.pages, res.2.1 (vma.addr i) = none

/-! ## The loops -/

theorem page_next (addr i : Nat) : addr + pageSize + i * pageSize = addr + (i + 1) * pageSize := by
  rw [Nat.succ_mul]
  omega

theorem mapZeroLoop_fails {fails : Nat → Option Int} {n addr : Nat} {table : PageTable} :
    (mapZeroLoop fails n addr table).2 = none ↔ ∀ i < n, fails (addr + i * pageSize) = none := by
  induction n generalizing addr table with
  | zero =>
    refine ⟨fun _ i hi => ?_, fun _ => rfl⟩
    omega
  | succ n ih =>
    simp only [mapZeroLoop]
    cases hf : fails addr with
    | some err =>
      refine ⟨fun h => absurd h (by simp), fun h => ?_⟩
      have := h 0 (Nat.succ_pos n)
      rw [Nat.zero_mul, Nat.add_zero, hf] at this
      exact absurd this (by simp)
    | none =>
      dsimp only
      rw [ih]
      constructor
      · intro h i hi
        cases i with
        | zero => rwa [Nat.zero_mul, Nat.add_zero]
        | succ i =>
          rw [← page_next]
          exact h i (by omega)
      · intro h i hi
        rw [page_next]
        exact h (i + 1) (by omega)

/-- A first loop that ends has mapped every page it went over, and no other. -/
theorem mapZeroLoop_apply {fails : Nat → Option Int} {n addr : Nat} {table : PageTable}
    (h : ∀ i < n, fails (addr + i * pageSize) = none) :
    (∀ i < n, (mapZeroLoop fails n addr table).1 (addr + i * pageSize) = some .zero) ∧
      ∀ a < addr, (mapZeroLoop fails n addr table).1 a = table a := by
  induction n generalizing addr table with
  | zero =>
    refine ⟨fun i hi => ?_, fun a _ => rfl⟩
    omega
  | succ n ih =>
    have hfirst : fails addr = none := by
      have := h 0 (Nat.succ_pos n)
      rwa [Nat.zero_mul, Nat.add_zero] at this
    have hpos : 0 < pageSize := by decide
    simp only [mapZeroLoop, hfirst]
    obtain ⟨hmapped, hkept⟩ := @ih (addr + pageSize) (Function.update table addr (some .zero)) (by
      intro i hi
      rw [page_next]
      exact h (i + 1) (by omega))
    refine ⟨fun i hi => ?_, fun a ha => ?_⟩
    · cases i with
      | zero =>
        -- the page mapped first is behind the rest of the loop
        rw [Nat.zero_mul, Nat.add_zero, hkept addr (by omega), Function.update_self]
      | succ i =>
        rw [← page_next]
        exact hmapped i (by omega)
    · rw [hkept a (by omega), Function.update_of_ne (by omega)]

theorem followLoop_fails {fails : Nat → Option Int} {n i addr : Nat} {ptes : Nat → Option Nat} :
    (followLoop fails n i addr ptes).2 = none ↔ ∀ j < n, fails (addr + j * pageSize) = none := by
  -- both loops stop at the first address at which the call they make fails
  rw [← @mapZeroLoop_fails fails n addr (fun _ => none)]
  suffices h : ∀ (i : Nat) (ptes : Nat → Option Nat) (table : PageTable),
      (followLoop fails n i addr ptes).2 = (mapZeroLoop fails n addr table).2 by
    rw [h i ptes]
  induction n generalizing addr with
  | zero => intro i ptes table; rfl
  | succ n ih =>
    intro i ptes table
    simp only [followLoop, mapZeroLoop]
    cases fails addr with
    | some err => rfl
    | none => exact ih (i + 1) _ _

/-- A second loop that ends has stored the entry of every page it went over. -/
theorem followLoop_apply {fails : Nat → Option Int} {n i addr : Nat} {ptes : Nat → Option Nat}
    (h : ∀ j < n, fails (addr + j * pageSize) = none) :
    (∀ j < n, (followLoop fails n i addr ptes).1 (i + j) = some (addr + j * pageSize)) ∧
      ∀ k < i, (followLoop fails n i addr ptes).1 k = ptes k := by
  induction n generalizing i addr ptes with
  | zero =>
    refine ⟨fun j hj => ?_, fun k _ => rfl⟩
    omega
  | succ n ih =>
    have hfirst : fails addr = none := by
      have := h 0 (Nat.succ_pos n)
      rwa [Nat.zero_mul, Nat.add_zero] at this
    simp only [followLoop, hfirst]
    obtain ⟨hstored, hkept⟩ := @ih (i + 1) (addr + pageSize) (Function.update ptes i (some addr)) (by
      intro j hj
      rw [page_next]
      exact h (j + 1) (by omega))
    refine ⟨fun j hj => ?_, fun k hk => ?_⟩
    · cases j with
      | zero =>
        rw [Nat.zero_mul, hkept (i + 0) (by omega), Nat.add_zero, Nat.add_zero, Function.update_self]
      | succ j =>
        rw [← page_next, show i + (j + 1) = i + 1 + j by omega]
        exact hstored j (by omega)
    · rw [hkept k (by omega), Function.update_of_ne (by omega)]

/-! ## When the call ends cleanly -/

/-- Neither function fails at any page. -/
def MapErrors.NoneOn (errs : MapErrors) (vma : Vma) : Prop :=
  (∀ i < vma.pages, errs.partialMapPfn (vma.addr i) = none) ∧
    ∀ i < biusPtesPerCommand, errs.followPte (vma.addr i) = none

/-- After a failure `bius_vm_open` leaves no page of the vma mapped. -/
theorem biusVmOpen_unmaps {errs : MapErrors} {vma : Vma} (h : ¬ errs.NoneOn vma) (conn : WindowConnection)
    (table : PageTable) : ∃ table', (biusVmOpen errs conn vma table).2 = zapVmaPtes vma table' := by
  simp only [biusVmOpen]
  cases hmap : (mapZeroLoop errs.partialMapPfn vma.pages vma.vmStart table).2 with
  | some err => exact ⟨_, rfl⟩
  | none =>
    dsimp only
    cases hfollow : (followLoop errs.followPte biusPtesPerCommand 0 vma.vmStart conn.ptes).2 with
    | some err => exact ⟨_, rfl⟩
    | none => exact absurd ⟨mapZeroLoop_fails.1 hmap, followLoop_fails.1 hfollow⟩ h

theorem biusVmOpen_complete {errs : MapErrors} {vma : Vma} (h : errs.NoneOn vma) (conn : WindowConnection)
    (table : PageTable) :
    (∀ i < vma.pages, (biusVmOpen errs conn vma table).2 (vma.addr i) = some .zero) ∧
      ∀ i < biusPtesPerCommand, (biusVmOpen errs conn vma table).1.ptes i = some (vma.addr i) := by
  have hmap := (@mapZeroLoop_fails errs.partialMapPfn vma.pages vma.vmStart table).2 h.1
  have hfollow := (@followLoop_fails errs.followPte biusPtesPerCommand 0 vma.vmStart conn.ptes).2 h.2
  simp only [biusVmOpen, hmap, hfollow]
  refine ⟨(mapZeroLoop_apply h.1).1, fun i hi => ?_⟩
  have hstored := (@followLoop_apply errs.followPte biusPtesPerCommand 0 vma.vmStart conn.ptes h.2).1 i hi
  rwa [Nat.zero_add] at hstored

/-- **A call of `mmap` ends cleanly exactly if nothing fails in it.** The vma is new, so
    none of its pages is mapped before. -/
theorem mmap_clean_iff (errs : MapErrors) (conn : WindowConnection) (vma : Vma) (table : PageTable)
    (hsize : biusMaxSizePerCommand ≤ vma.vmEnd - vma.vmStart) (hnew : ∀ i < vma.pages, table (vma.addr i) = none) :
    MmapClean conn vma (biusDevMmap errs conn vma table) ↔ conn.vma.isSome = true ∨ errs.NoneOn vma := by
  by_cases hbusy : conn.vma.isSome = true
  · -- refused before anything is done
    refine ⟨fun _ => .inl hbusy, fun _ => ?_⟩
    rw [biusDevMmap, if_pos hbusy]
    have hneg : -eBUSY < 0 := by decide
    have hne : -eBUSY ≠ 0 := by decide
    exact ⟨fun h => absurd h hne, fun h => absurd h hne, fun _ => hneg, fun _ => rfl, fun _ => hnew⟩
  · have hres : biusDevMmap errs conn vma table =
        ((biusVmOpen errs { conn with vma := some vma } vma table).1,
          (biusVmOpen errs { conn with vma := some vma } vma table).2, 0) := by
      rw [biusDevMmap, if_neg hbusy, if_neg (by omega)]
    rw [hres]
    constructor
    · intro h
      refine .inr ?_
      by_contra herr
      have hpages : 0 < vma.pages := by
        refine Nat.pos_of_ne_zero (fun h0 => ?_)
        rw [Vma.vmEnd, h0, Vma.addr, Nat.zero_mul, Nat.add_zero, Nat.sub_self] at hsize
        exact absurd hsize (by decide)
      -- the first page is not mapped, although the call returns 0
      obtain ⟨table', hzap⟩ := biusVmOpen_unmaps herr { conn with vma := some vma } table
      have hfirst := h.mapped rfl 0 hpages
      have hin : vma.vmStart ≤ vma.addr 0 ∧ vma.addr 0 < vma.vmEnd := by
        unfold Vma.vmEnd Vma.addr pageSize
        omega
      change (biusVmOpen errs { conn with vma := some vma } vma table).2 (vma.addr 0) = _ at hfirst
      rw [hzap, zapVmaPtes, if_pos hin] at hfirst
      cases hfirst
    · intro h
      have hnone := h.resolve_left hbusy
      obtain ⟨hmapped, hptes⟩ := biusVmOpen_complete hnone { conn with vma := some vma } table
      exact ⟨fun _ => hmapped, fun _ => hptes, fun h => absurd rfl h, fun h => absurd rfl h, fun h => absurd rfl h⟩

/-- A vma as libbius maps it: one page more than the largest command. -/
def libbiusVma : Vma := ⟨0x7f0000000000, biusPtesPerCommand + 1⟩

theorem libbiusVma_size : biusMaxSizePerCommand ≤ libbiusVma.vmEnd - libbiusVma.vmStart := by
  decide

theorem mmap_clean_iff_libbius :
    MmapClean ⟨none, fun _ => none⟩ libbiusVma
      (biusDevMmap ⟨fun _ => none, fun _ => none⟩ ⟨none, fun _ => none⟩ libbiusVma (fun _ => none)) :=
  (mmap_clean_iff _ _ _ _ libbiusVma_size (fun _ _ => rfl)).2 (.inr ⟨fun _ _ => rfl, fun _ _ => rfl⟩)

/-- `partial_map_pfn` fails with `-ENOMEM` at the first page: the call returns 0, and no
    page is mapped. -/
theorem mmap_returns_zero_unmapped :
    let res := biusDevMmap ⟨fun addr => if addr = 0x7f0000000000 then some (-eNOMEM) else none, fun _ => none⟩
      ⟨none, fun _ => none⟩ libbiusVma (fun _ => none)
    res.2.2 = 0 ∧ res.2.1 (libbiusVma.addr 0) = none ∧ res.1.vma = some libbiusVma ∧
      ¬ MmapClean ⟨none, fun _ => none⟩ libbiusVma res := by
  refine ⟨rfl, rfl, rfl, fun h => ?_⟩
  have hfirst := h.mapped rfl 0 (by decide)
  cases hfirst

end Bius
