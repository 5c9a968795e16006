import Bius.MappedBackend

/- One command of a mapped request, from its callback's point of view (CONFIG_BIUS_DATAMAP
   build). The list of the command names the addresses of the segments in order, so the
   handler is always at an entry of it, with the entries before it done (`before ++ after`),
   and a callback moves the bytes of its entry from the front to the back. `MappedCall.Runs`
   says so of a call that has moved `n` bytes; whatever the handler or the callback does
   next, the bytes that it moves are the next bytes of the request. -/
namespace Bius

/-! ## The command of a mapped request -/

/-- The request as it was before it was mapped. -/
def BiusRequest.plain (r : BiusRequest) : BiusRequest := { r with mapType := .unmapped }

/-- Its segments. -/
abbrev BiusRequest.segs (r : BiusRequest) : List Seg := rqForEachSegment r.rq

/-- Where the data of a mapped request are in the window: in one piece, or in the pieces of
    the list. -/
theorem MapLayout.command {r : BiusRequest} {vmStart : Nat} (h : MapLayout r.plain r.segs vmStart)
    (hm : (r.mapping vmStart).2 = r) (hd : requestMayHaveData r.type = true) (hpos : 0 ≤ r.pos) (hlt : r.pos < 2 ^ 63) :
    (∃ off, listEntries vmStart r.segs = [(vmStart + off, r.length)] ∧
      k2uHeader true vmStart r = ⟨r.id, r.type, r.pos.toNat, r.length, vmStart, off, .simple⟩) ∨
    1 < (listEntries vmStart r.segs).length ∧
      k2uHeader true vmStart r =
        ⟨r.id, r.type, r.pos.toNat, r.length, vmStart, vmStart + r.segs.length * pageSize, .list⟩ := by
  have hblk := isBlkRequest_of_mayHaveData hd
  have hoff : (r.pos % 2 ^ 64).toNat = r.pos.toNat := by omega
  change (biusMapData r.plain vmStart r.segs).2 = r at hm
  rcases Nat.lt_or_eq_of_le h.entries_pos with hes | hes
  · refine Or.inr ⟨hes, ?_⟩
    have hlist := (biusMapData_list h.unmapped vmStart h.ok hes).1
    rw [hm] at hlist
    have htype : r.mapType = .list := congrArg BiusRequest.mapType hlist
    have hdata : r.mapData = vmStart + r.segs.length * pageSize := congrArg BiusRequest.mapData hlist
    simp [k2uHeader, hblk, htype, hdata]
    exact hoff
  · obtain ⟨off, hent, hsimple⟩ := h.simple hes.symm
    refine Or.inl ⟨off, hent, ?_⟩
    rw [hm] at hsimple
    have htype : r.mapType = .simple := congrArg BiusRequest.mapType hsimple
    have hdata : r.mapData = off := congrArg BiusRequest.mapData hsimple
    simp [k2uHeader, hblk, htype, hdata]
    exact hoff

/-! ## A callback -/

/-- The callback has been called for `l` bytes at the address `a`, which stand at `off` of
    the disk, and has moved `n` of them. -/
structure Transfer.Covers (mover : Mover) (r : BiusRequest) (a off l n : Nat) (t : Transfer) : Prop where
  id : t.id = r.id
  op : t.op = r.type
  data : t.data = a
  offset : t.offset = off
  length : t.length = l
  moved : t.size + t.moved = n
  le : n ≤ l
  once : mover = .memcpy → t.size = 0
  status : ∀ status, t.status = some status → status = blkStsOk ∧ n = l ∨ status = blkStsIoerr ∧
    mover = .syscalls

section
variable {mover : Mover} {r : BiusRequest} {a off l n : Nat} {t t' : Transfer}

theorem Transfer.start_covers (hkind : r.type = .read ∨ r.type = .write) {k2u : K2u} (hid : k2u.id = r.id)
    (hop : k2u.opcode = r.type) : ∃ t, Transfer.start mover k2u = some t ∧
      t.Covers mover r (k2u.dataAddress + k2u.mappingData) k2u.offset k2u.length 0 := by
  have hstart : Transfer.start mover k2u =
      some ⟨k2u.id, k2u.opcode, k2u.dataAddress + k2u.mappingData, k2u.offset, k2u.length, 0, 0, none⟩ := by
    rcases hkind with hk | hk <;>
    · rw [hk] at hop
      unfold Transfer.start
      rw [hop]
  exact ⟨_, hstart, hid, hop, rfl, rfl, rfl, rfl, Nat.zero_le _, fun _ => rfl, fun status hs => (by cases hs)⟩

theorem Transfer.Covers.returns (h : t.Covers mover r a off l n) (hkind : r.type = .read ∨ r.type = .write)
    (hnone : t.status = none) (hret : t.returns mover = some t') : t'.Covers mover r a off l n := by
  have hmoved := h.moved
  have hlength := h.length
  unfold Transfer.returns at hret
  cases mover with
  | memcpy =>
    dsimp only at hret
    split at hret
    · next hall =>
      cases hret
      have hsize := h.once rfl
      refine ⟨h.id, h.op, h.data, h.offset, h.length, h.moved, h.le, h.once, fun status hs => ?_⟩
      cases hs
      exact Or.inl ⟨rfl, by omega⟩
    · cases hret
  | syscalls =>
    have hnot : t.op ≠ .flush := by
      rw [h.op]
      rcases hkind with hk | hk <;> rw [hk] <;> decide
    dsimp only at hret
    rw [if_neg hnot] at hret
    split at hret
    · cases hret
      refine ⟨h.id, h.op, h.data, h.offset, h.length, h.moved, h.le, h.once, fun status hs => ?_⟩
      cases hs
      exact Or.inr ⟨rfl, rfl⟩
    · split at hret
      · -- the loop of the callback goes on
        cases hret
        exact ⟨h.id, h.op, h.data, h.offset, h.length, h.moved, h.le, fun hc => (by cases hc),
          fun status hs => absurd (hnone.symm.trans hs) (by simp)⟩
      · next hend =>
        cases hret
        refine ⟨h.id, h.op, h.data, h.offset, h.length, h.moved, h.le, fun hc => (by cases hc), fun status hs => ?_⟩
        cases hs
        have hle := h.le
        exact Or.inl ⟨rfl, by omega⟩

theorem Transfer.Covers.fails (h : t.Covers mover r a off l n) (hsys : mover = .syscalls) :
    ({ t with status := some blkStsIoerr } : Transfer).Covers mover r a off l n := by
  refine ⟨h.id, h.op, h.data, h.offset, h.length, h.moved, h.le, h.once, fun status hs => ?_⟩
  cases hs
  exact Or.inr ⟨rfl, hsys⟩

theorem Transfer.Covers.piece (h : t.Covers mover r a off l n) (hnone : t.status = none) {k : Nat}
    (hk : t.size + t.moved + k ≤ t.length) :
    ({ t with moved := t.moved + k } : Transfer).Covers mover r a off l (n + k) := by
  have hmoved := h.moved
  have hlength := h.length
  refine ⟨h.id, h.op, h.data, h.offset, h.length, ?_, by omega, h.once,
    fun status hs => absurd (hnone.symm.trans hs) (by simp)⟩
  show t.size + (t.moved + k) = n + k
  omega

end

/-! ## The handler -/

/-- The handler of the command of `r`, whose window starts at `vmStart`, has moved `n` bytes. -/
structure MappedCall.Runs (mover : Mover) (r : BiusRequest) (vmStart n : Nat) (call : MappedCall) : Prop where
  k2u : call.k2u = k2uHeader true vmStart r
  /-- it is through -/
  through : ∀ status, call.status = some status →
    status = blkStsOk ∧ n = r.length ∨ status = blkStsIoerr ∧ mover = .syscalls
  /-- it is between two entries of the list, or in the callback for the next one -/
  place : call.status = none → ∃ before after, listEntries vmStart r.segs = before ++ after ∧
    call.i = before.length ∧
    call.offset = r.pos.toNat + (before.map Prod.snd).sum ∧
    (call.callback = none → call.k2u.dataMapType = .list ∧ n = (before.map Prod.snd).sum) ∧
    ∀ t, call.callback = some t → ∃ a l rest k, after = (a, l) :: rest ∧ n = (before.map Prod.snd).sum + k ∧
      t.Covers mover r a call.offset l k

section
variable {mover : Mover} {r : BiusRequest} {vmStart n : Nat} {call call' : MappedCall}

/-- The lengths of the entries add up to the length of the request. -/
theorem MapLayout.entries_sum (h : MapLayout r.plain r.segs vmStart) :
    ((listEntries vmStart r.segs).map Prod.snd).sum = r.length := by
  calc ((listEntries vmStart r.segs).map Prod.snd).sum = (entryAddrs (listEntries vmStart r.segs)).length :=
        (entryAddrs_length _).symm
    _ = (segAddrs vmStart r.segs).length := by rw [listEntries_addrs]
    _ = (r.segs.map Seg.len).sum := segAddrs_length _ _
    _ = r.length := h.sum

theorem MapLayout.start_runs (h : MapLayout r.plain r.segs vmStart) (hm : (r.mapping vmStart).2 = r)
    (hkind : r.type = .read ∨ r.type = .write) (hpos : 0 ≤ r.pos) (hlt : r.pos < 2 ^ 63) :
    ∃ call, MappedCall.start mover (k2uHeader true vmStart r) = some call ∧ call.Runs mover r vmStart 0 := by
  have hd : requestMayHaveData r.type = true := by rcases hkind with hk | hk <;> rw [hk] <;> rfl
  rcases h.command hm hd hpos hlt with ⟨off, hent, hk⟩ | ⟨hes, hk⟩
  · -- the callback is called for the whole request
    obtain ⟨t, hstart, hcov⟩ := @Transfer.start_covers mover r hkind (k2uHeader true vmStart r) (by rw [hk])
      (by rw [hk])
    refine ⟨⟨k2uHeader true vmStart r, 0, (k2uHeader true vmStart r).offset, some t, none⟩, ?_, rfl,
      fun status hs => (by cases hs), fun _ => ⟨[], _, (List.nil_append _).symm, rfl, ?_, fun hc => (by cases hc),
        fun u hu => ?_⟩⟩
    · unfold MappedCall.start
      rw [if_neg (by rw [hk]; simp), hstart]
      rfl
    · rw [hk]
      rfl
    · cases hu
      rw [hk] at hcov ⊢
      exact ⟨_, _, [], 0, hent, rfl, hcov⟩
  · refine ⟨⟨k2uHeader true vmStart r, 0, (k2uHeader true vmStart r).offset, none, none⟩, ?_, rfl,
      fun status hs => (by cases hs), fun _ => ⟨[], _, (List.nil_append _).symm, rfl, ?_,
        fun _ => ⟨by rw [hk], rfl⟩, fun u hu => (by cases hu)⟩⟩
    · unfold MappedCall.start
      exact if_pos (by rw [hk])
    · rw [hk]
      rfl

theorem MappedCall.Runs.entry {m : PhysMem} (h : call.Runs mover r vmStart n) (hb : Backed r.plain vmStart r.segs m)
    (hm : (r.mapping vmStart).2 = r) (hkind : r.type = .read ∨ r.type = .write) (hpos : 0 ≤ r.pos)
    (hlt : r.pos < 2 ^ 63) (hnone : call.status = none) (hcall : call.callback = none)
    (hs : call.entry mover (m.windowWord vmStart (call.k2u.mappingData + 16 * call.i))
      (m.windowWord vmStart (call.k2u.mappingData + 16 * call.i + 8)) = some call') : call'.Runs mover r vmStart n := by
  have hd : requestMayHaveData r.type = true := by rcases hkind with hk | hk <;> rw [hk] <;> rfl
  obtain ⟨before, after, hent, hi, hoff, hbetween, -⟩ := h.place hnone
  obtain ⟨hlist, hn⟩ := hbetween hcall
  have hk := h.k2u
  rcases hb.layout.command hm hd hpos hlt with ⟨off, -, hk'⟩ | ⟨hes, hk'⟩
  · rw [hk, hk'] at hlist
    cases hlist
  have hmap : call.k2u.mappingData = vmStart + r.segs.length * pageSize := by rw [hk, hk']
  obtain ⟨hwords, hend⟩ := hb.list_words hes
  rw [hmap, hi] at hs
  cases after with
  | nil =>
    -- the end of the list
    rw [List.append_nil] at hent
    rw [hent] at hend
    rw [hend] at hs
    change some _ = some call' at hs
    cases hs
    refine ⟨h.k2u, fun status hst => ?_, fun hst => (by cases hst)⟩
    cases hst
    refine Or.inl ⟨rfl, ?_⟩
    rw [hn, ← hent]
    exact hb.layout.entries_sum
  | cons e rest =>
    obtain ⟨a, l⟩ := e
    have hget : (listEntries vmStart r.segs)[before.length]? = some (a, l) := by
      rw [hent]
      simp
    obtain ⟨ha, hl⟩ := hwords _ _ _ hget
    have hpos' := (listEntries_mem hb.layout.ok (List.mem_of_getElem? hget)).1
    have hne : a ≠ 0 := by
      have hz := hb.layout.nonzero
      omega
    rw [ha, hl] at hs
    unfold MappedCall.entry at hs
    rw [if_neg hne, Option.map_eq_some_iff] at hs
    obtain ⟨t, hstart, rfl⟩ := hs
    obtain ⟨t', hstart', hcov⟩ := @Transfer.start_covers mover r hkind
      { call.k2u with dataAddress := a, mappingData := 0, offset := call.offset, length := l }
      (by rw [hk, hk']) (by rw [hk, hk'])
    rw [hstart] at hstart'
    cases hstart'
    refine ⟨h.k2u, fun status hst => absurd (hnone.symm.trans hst) (by simp),
      fun _ => ⟨before, _, hent, hi, hoff, fun hc => (by cases hc), fun u hu => ?_⟩⟩
    cases hu
    exact ⟨a, l, rest, 0, rfl, hn, hcov⟩

/-- The callback that the handler is in goes on, and moves `k` bytes. -/
theorem MappedCall.Runs.callback (h : call.Runs mover r vmStart n) (hnone : call.status = none) {t t' : Transfer} {k : Nat}
    (ht : call.callback = some t)
    (hgoes : ∀ a off l m, t.Covers mover r a off l m → t'.Covers mover r a off l (m + k)) :
    ({ call with callback := some t' } : MappedCall).Runs mover r vmStart (n + k) := by
  obtain ⟨before, after, hent, hi, hoff, -, hcalled⟩ := h.place hnone
  obtain ⟨a, l, rest, m, hafter, hn, hcov⟩ := hcalled t ht
  refine ⟨h.k2u, fun status hs => absurd (hnone.symm.trans hs) (by simp),
    fun _ => ⟨before, after, hent, hi, hoff, fun hc => (by cases hc), fun u hu => ?_⟩⟩
  cases hu
  exact ⟨a, l, rest, m + k, hafter, by omega, hgoes _ _ _ _ hcov⟩

theorem MappedCall.Runs.returned (h : call.Runs mover r vmStart n) (hl : MapLayout r.plain r.segs vmStart)
    (hm : (r.mapping vmStart).2 = r) (hd : requestMayHaveData r.type = true) (hpos : 0 ≤ r.pos) (hlt : r.pos < 2 ^ 63)
    (hnone : call.status = none) {t : Transfer} {status : Nat} (ht : call.callback = some t)
    (hs : t.status = some status) :
    (call.returned t status).Runs mover r vmStart n := by
  obtain ⟨before, after, hent, hi, hoff, -, hcalled⟩ := h.place hnone
  obtain ⟨a, l, rest, k, rfl, hn, hcov⟩ := hcalled t ht
  have hstatus := hcov.status status hs
  unfold MappedCall.returned
  split
  · next hlist =>
    -- on to the next entry
    obtain ⟨-, hkl⟩ := hstatus.resolve_right (fun herr => by rw [hlist.2] at herr; cases herr.1)
    have hlen := hcov.length
    refine ⟨h.k2u, fun st hst => absurd (hnone.symm.trans hst) (by simp),
      fun _ => ⟨before ++ [(a, l)], rest, by rw [hent]; simp,
        by simp [hi], ?_, fun _ => ⟨hlist.1, ?_⟩, fun u hu => (by cases hu)⟩⟩
    · simp only [List.map_append, List.map_singleton, List.sum_append, List.sum_singleton]
      omega
    · simp only [List.map_append, List.map_singleton, List.sum_append, List.sum_singleton]
      omega
  · next hnot =>
    refine ⟨h.k2u, fun st hst => ?_, fun hst => (by cases hst)⟩
    cases hst
    refine hstatus.imp_left (fun hok => ⟨hok.1, ?_⟩)
    -- a single range is the whole request
    rcases hl.command hm hd hpos hlt with ⟨off, hsingle, -⟩ | ⟨-, hk⟩
    · rw [hsingle] at hent
      have hbefore : before = [] := by
        cases before with
        | nil => rfl
        | cons x before => simp at hent
      subst hbefore
      simp only [List.nil_append, List.cons.injEq, Prod.mk.injEq] at hent
      simp only [List.map_nil, List.sum_nil] at hn
      omega
    · exact absurd ⟨by rw [h.k2u, hk], hok.1⟩ hnot

/-- The next bytes that the callback moves are the next bytes of the request. -/
theorem MappedCall.Runs.next (h : call.Runs mover r vmStart n) (hl : MapLayout r.plain r.segs vmStart)
    (hnone : call.status = none) {t : Transfer} (ht : call.callback = some t) {k : Nat}
    (hk : t.size + t.moved + k ≤ t.length) :
    MappedStack.addrs t k = ((segAddrs vmStart r.segs).drop n).take k ∧
      t.offset + (t.size + t.moved) = r.pos.toNat + n ∧ n + k ≤ r.length ∧ t.id = r.id ∧ t.op = r.type := by
  obtain ⟨before, after, hent, -, hoff, -, hcalled⟩ := h.place hnone
  obtain ⟨a, l, rest, m, rfl, hn, hcov⟩ := hcalled t ht
  have hmoved := hcov.moved
  have hlength := hcov.length
  have hoffset := hcov.offset
  have hsum := hl.entries_sum
  have hb : (entryAddrs before).length = (before.map Prod.snd).sum := entryAddrs_length before
  refine ⟨?_, by omega, ?_, hcov.id, hcov.op⟩
  · have haddrs : segAddrs vmStart r.segs = entryAddrs before ++ (List.range' a l ++ entryAddrs rest) := by
      rw [← listEntries_addrs, hent]
      simp [entryAddrs]
    have hsplit : List.range' a l = List.range' a m ++ (List.range' (a + m) k ++ List.range' (a + m + k) (l - m - k)) := by
      rw [List.range'_append_1, List.range'_append_1]
      congr 1
      omega
    rw [haddrs, hn, ← hb, ← List.drop_drop, List.drop_left, hsplit, List.append_assoc,
      List.drop_left' (List.length_range' ..), List.append_assoc, List.take_left' (List.length_range' ..)]
    unfold MappedStack.addrs
    rw [hcov.data, hmoved]
  · rw [hent] at hsum
    simp only [List.map_append, List.map_cons, List.sum_append, List.sum_cons] at hsum
    omega

end

end Bius
