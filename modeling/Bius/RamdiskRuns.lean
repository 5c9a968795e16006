import Bius.RamdiskStack
import Bius.StackOrders
import Bius.StackProgress

/- Runs of the whole stack over the ramdisk (default build). What is submitted is either
   outstanding or has been completed, once and with its own data (`Stack.Accounts`); what
   has been completed is right (`AllRight`), and the disk is what the completed writes have
   stored. Nothing is left behind: without new requests a run comes to its end, and at its
   end nothing is outstanding. `ramdisk_flat` puts this together, for every run. -/
namespace Bius

/-! ## The flat disk, byte by byte -/

theorem exists_last {α : Type} (P : α → Prop) (l : List α) :
    (∃ before x after, l = before ++ x :: after ∧ P x ∧ ∀ y ∈ after, ¬ P y) ∨ ∀ x ∈ l, ¬ P x := by
  induction l with
  | nil => exact Or.inr (fun x hx => by cases hx)
  | cons a l ih =>
    rcases ih with ⟨before, x, after, rfl, hx, hafter⟩ | hnone
    · exact Or.inl ⟨a :: before, x, after, rfl, hx, hafter⟩
    · by_cases ha : P a
      · exact Or.inl ⟨[], a, l, rfl, ha, hnone⟩
      · refine Or.inr (fun x hx => ?_)
        rcases List.mem_cons.1 hx with rfl | hx
        · exact ha
        · exact hnone x hx

section
variable {ended before after : List BiusRequest} {r : BiusRequest} {b : Nat}

theorem flatDisk_unwritten (hlen : ∀ q ∈ ended, q.length = (chainBytes q.rq).length)
    (h : ∀ q ∈ ended, q.type = .write → ¬ q.Covers b) : flatDisk ended b = 0 := by
  unfold flatDisk
  apply Bytes.splices_none
  intro w hw hit
  obtain ⟨q, hq, hstored⟩ := List.mem_filterMap.1 hw
  unfold BiusRequest.stored at hstored
  split at hstored
  · next htype =>
    cases hstored
    apply h q hq htype
    obtain ⟨hlo, hhi⟩ := hit
    exact ⟨hlo, by rw [hlen q hq]; exact hhi⟩
  · cases hstored

/-- A byte holds what the last completed write that covers it has stored there. -/
theorem flatDisk_written (hlen : ∀ q ∈ before ++ r :: after, q.length = (chainBytes q.rq).length)
    (hw : r.type = .write) (hb : r.Covers b) (hlast : ∀ q ∈ after, q.type = .write → ¬ q.Covers b) :
    some (flatDisk (before ++ r :: after) b) = (chainBytes r.rq)[b - r.pos.toNat]? := by
  obtain ⟨hlo, hhi⟩ := hb
  rw [hlen r (by simp)] at hhi
  have hstored : r.stored = some (r.pos.toNat, chainBytes r.rq) := if_pos hw
  have hcons : flatDisk (before ++ r :: after) =
      Bytes.splices (Bytes.splice (flatDisk before) r.pos.toNat (chainBytes r.rq))
        (after.filterMap BiusRequest.stored) := by
    unfold flatDisk Bytes.splices
    rw [List.filterMap_append, List.filterMap_cons_some hstored, List.foldl_append, List.foldl_cons]
  rw [hcons, Bytes.splices_none]
  · obtain ⟨i, rfl⟩ : ∃ i, b = r.pos.toNat + i := ⟨b - r.pos.toNat, by omega⟩
    have hi : i < (chainBytes r.rq).length := by omega
    rw [Bytes.splice_inside _ hi, Nat.add_sub_cancel_left, List.getElem?_eq_getElem hi]
  · intro w hmem hit
    obtain ⟨q, hq, hq'⟩ := List.mem_filterMap.1 hmem
    unfold BiusRequest.stored at hq'
    split at hq'
    · next htype =>
      cases hq'
      refine hlast q hq htype ⟨hit.1, ?_⟩
      rw [hlen q (by simp [hq])]
      exact hit.2
    · cases hq'

end

/-- The `i`th byte of a read is what the last write that covers it has stored there, of
    those completed before; or zero, if there is none. -/
def BiusRequest.Found (before : List BiusRequest) (r : BiusRequest) (i : Nat) : Prop :=
  (∃ first w later, before = first ++ w :: later ∧ w.type = .write ∧ w.Covers (r.pos.toNat + i) ∧
      (∀ q ∈ later, q.type = .write → ¬ q.Covers (r.pos.toNat + i)) ∧
      (chainBytes r.rq)[i]? = (chainBytes w.rq)[r.pos.toNat + i - w.pos.toNat]?) ∨
    (∀ q ∈ before, q.type = .write → ¬ q.Covers (r.pos.toNat + i)) ∧ (chainBytes r.rq)[i]? = some 0

/-! ## A request in the end -/

section
variable {r : BiusRequest}

theorem finished_order (htype : r.type = .read ∨ r.type = .write) (umem : UMem) (u2k : U2k) :
    (r.finished umem u2k).order = r.order := by
  obtain ⟨rq, hfin, hrq⟩ := finished_rest htype umem u2k
  have hplaces : chainPlaces rq = chainPlaces r.rq := by
    have h := finished_places r umem u2k
    rwa [hfin] at h
  rw [hfin]
  unfold BiusRequest.order
  dsimp only
  rw [hplaces]
  rcases htype with ht | ht
  · rw [ht]
    rfl
  · rw [hrq ht]

end

section
variable {heap fuel : Nat} {buffer : Nat → Nat} {s s' : Stack (Proc (Nat → UInt8))}

/-! ## The steps -/

theorem Stack.Flat.accounts {asked : List Order} (hacc : s.Accounts (fun o r => r.order = o) asked) (h : s.Flat buffer)
    (ha : s.Agrees ⟨false⟩ (ramdiskStack heap fuel buffer)) {act : StackAct (Proc (Nat → UInt8))}
    (hok : s.Orderly (ramdiskStack heap fuel buffer) act)
    (hs : s.step ⟨false⟩ (ramdiskStack heap fuel buffer) act = some s') :
    s'.Accounts (fun o r => r.order = o) (asked ++ act.order.toList) := by
  refine hacc.step ha (library_honest (fun _ _ _ _ => rfl)) h.isBlk hok.admits hok.orders (fun t p rq hact => ?_)
    (fun c p _ hat => finished_order (h.inside p (ha.at_busy hat)).type _ _) hs
  subst hact
  have hin := hok.2.2.1
  unfold ramdiskSize at hin
  exact initBlkRequest_order (by omega) _ _

/-- Only a write in flight changes the disk, and only in its range. -/
theorem Stack.Flat.changes (h : s.Flat buffer) (ha : s.Agrees ⟨false⟩ (ramdiskStack heap fuel buffer))
    {act : StackAct (Proc (Nat → UInt8))} (hok : s.Orderly (ramdiskStack heap fuel buffer) act)
    (hs : s.step ⟨false⟩ (ramdiskStack heap fuel buffer) act = some s') {b : Nat}
    (hb : s'.proc.dev b ≠ s.proc.dev b) :
    ∃ p, s.kernel.busy p = true ∧ (s.kernel.req p).type = .write ∧ (s.kernel.req p).Covers b := by
  have hhonest : (ramdiskStack heap fuel buffer).Honest ⟨false⟩ := library_honest (fun _ _ _ _ => rfl)
  have hfilled : ∀ {c p n q}, s.Filled (ramdiskStack heap fuel buffer) c p n q → q.dev = s.proc.dev := by
    intro c p n q hfill
    rcases hfill with ⟨-, rfl⟩ | ⟨m, bytes, -, -, -, rfl⟩ <;> rfl
  by_contra hnone
  apply hb
  have ha' := ha.step hhonest hok.admits hs
  cases ha.turn ha' h.isBlk hok.orders hhonest.buffers hs with
  | quiet act hk hproc => rw [hproc]
  | submitted t p rq hfree hreq hbusy hended hproc => rw [hproc]
  | copying act c p n hk ho hp hoff hat hwrite hn hfill => rw [hfilled hfill]
  | entered act c p n q hk ho hp hoff hat hle hn hfill hk2u hproc =>
    rw [hproc, ← hfilled hfill]
    rfl
  | replied c p hat hk ho hat' hleave =>
    have hbusy := ha.at_busy hat
    have hin := h.inside p hbusy
    have hlen := ((ha.inHand hat).offered.data hin.mayHaveData).1
    rw [(ha.inHand hat).k2u (by simp)] at hleave
    change makeReply ramdiskOperations (Proc.process heap) fuel (s.loop c).u2k
      (copyInHeader (buffer c) (k2uHeader false 0 (s.kernel.req p))) s.proc = _ at hleave
    rcases hin.type with htype | htype
    · rw [ramdisk_reply_read htype] at hleave
      rw [← (Prod.mk.inj (Option.some.inj hleave)).1]
    · rw [ramdisk_reply_write htype, hin.offset] at hleave
      rw [← (Prod.mk.inj (Option.some.inj hleave)).1]
      apply Bytes.splice_outside _
      rw [Bytes.slice_length]
      have hnot : ¬ (s.kernel.req p).Covers b := fun hcov => hnone ⟨p, hbusy, htype, hcov⟩
      unfold BiusRequest.Covers at hnot
      omega
  | ended c p hat hproc => rw [hproc]
  | freed c hk ho hat hproc => rw [hproc, ramdisk_free]
  | process a => exact absurd hok (by simp [Stack.Orderly])

theorem Stack.Flat.leaves (h : s.Flat buffer) (ha : s.Agrees ⟨false⟩ (ramdiskStack heap fuel buffer)) {c : Nat}
    (hpt : (s.loop c).point = .handling) :
    ∃ res, (ramdiskStack heap fuel buffer).leave c (s.loop c).k2u (s.loop c).u2k s.proc = some res := by
  obtain ⟨p, hat⟩ : ∃ p, s.At c p .handling := by
    have hf := ha.framed c
    unfold Stack.FramedAt at hf
    rw [hpt] at hf
    generalize s.kernel.call (.user c) = call at hf
    cases hf with
    | handling p r hp hr hw => exact ⟨p, hpt, by simp, Or.inl (by simp [hw])⟩
  rw [(ha.inHand hat).k2u (by simp)]
  show ∃ res, makeReply ramdiskOperations (Proc.process heap) fuel (s.loop c).u2k
    (copyInHeader (buffer c) (k2uHeader false 0 (s.kernel.req p))) s.proc = some res
  rcases (h.inside p (ha.at_busy hat)).type with htype | htype
  · exact ⟨_, ramdisk_reply_read htype⟩
  · exact ⟨_, ramdisk_reply_write htype⟩

/-- A step of service that the framing admits is one of the kind. -/
theorem StackAct.Serves.orderly {act : StackAct (Proc (Nat → UInt8))}
    {B : Backend (Proc (Nat → UInt8)) (Proc (Nat → UInt8))} (hact : act.Serves)
    (h : s.Admits ⟨false⟩ B act) : s.Orderly B act := by
  cases act with
  | block act =>
    cases act with
    | queueRq | reportZones => exact absurd hact (by simp [StackAct.Serves])
    | _ => trivial
  | read c cuts => exact h
  | process a => exact absurd hact (by simp [StackAct.Serves])
  | _ => trivial

/-! ## The runs -/

theorem Stack.Flat.init (k2u : Nat → K2u) (u2k : Nat → U2k) (mem : Nat → UInt8) :
    (Stack.init k2u u2k (⟨mem, fun _ => 0⟩ : Proc (Nat → UInt8))).Flat buffer := by
  refine ⟨fun p hp => (by cases hp), fun p q hp => (by cases hp), fun before r after heq => ?_, fun b _ => rfl,
    fun c p point hat => ?_⟩
  · cases before <;> cases heq
  · rw [← hat.place]
    trivial

/-- What is asked for has as many bytes in its segments as its length says. -/
theorem orders_whole {acts : List (StackAct (Proc (Nat → UInt8)))}
    (hrun : Machine.Steps (Stack.step ⟨false⟩ (ramdiskStack heap fuel buffer))
      (Stack.Orderly (ramdiskStack heap fuel buffer)) s acts s') : ∀ o ∈ orders acts, o.length = placesSize
        o.places := by
  intro o ho
  obtain ⟨act, hact, horder⟩ := List.mem_filterMap.1 ho
  obtain ⟨u, hok⟩ : ∃ u, Stack.Orderly (ramdiskStack heap fuel buffer) u act := by
    clear ho
    induction hrun with
    | nil => cases hact
    | @cons s t u a as hok _ _ ih =>
      rcases List.mem_cons.1 hact with rfl | hact
      · exact ⟨s, hok⟩
      · exact ih hact
  cases act with
  | block act =>
    cases act with
    | queueRq t p rq =>
      cases horder
      have hdata : requestMayHaveData (toBiusRequest rq.op) = true := by
        rcases hok.1 with ht | ht <;> rw [ht] <;> rfl
      exact (rq.len_eq hdata).trans (chainPlaces_size rq.bios).symm
    | _ => cases horder
  | _ => cases horder

theorem Stack.Accounts.whole {asked : List Order} (h : s.Accounts (fun o r => r.order = o) asked)
    (hasked : ∀ o ∈ asked, o.length = placesSize o.places) :
      ∀ r ∈ s.kernel.ended, r.length = (chainBytes r.rq).length := by
  intro r hr
  obtain ⟨o, ho, rfl⟩ := h.answers hr
  exact (hasked _ ho).trans (chainPlaces_size r.rq)

theorem AllRight.found {ended : List BiusRequest} (h : AllRight ended)
    (hlen : ∀ q ∈ ended, q.length = (chainBytes q.rq).length)
    {before after : List BiusRequest} {r : BiusRequest} (heq : ended = before ++ r :: after)
    (htype : r.type = .read) {i : Nat} (hi : i < r.length) : r.Found before i := by
  have hbytes := (h before r after heq).2 htype
  have hbefore : ∀ q ∈ before, q.length = (chainBytes q.rq).length := fun q hq => hlen q (by rw [heq]; simp [hq])
  have hget : (chainBytes r.rq)[i]? = some (flatDisk before (r.pos.toNat + i)) := by
    rw [hbytes]
    exact Bytes.slice_getElem? _ _ _ _ hi
  rcases exists_last (fun q : BiusRequest => q.type = .write ∧ q.Covers (r.pos.toNat + i)) before with
    ⟨first, w, later, rfl, ⟨hw, hcov⟩, hlater⟩ | hnone
  · refine Or.inl ⟨first, w, later, rfl, hw, hcov, fun q hq hqw hqc => hlater q hq ⟨hqw, hqc⟩, ?_⟩
    rw [hget]
    exact flatDisk_written hbefore hw hcov (fun q hq hqw hqc => hlater q hq ⟨hqw, hqc⟩)
  · have hnone' : ∀ q ∈ before, q.type = .write → ¬ q.Covers (r.pos.toNat + i) :=
        fun q hq hqw hqc => hnone q hq ⟨hqw, hqc⟩
    refine Or.inr ⟨hnone', ?_⟩
    rw [hget, flatDisk_unwritten hbefore hnone']

theorem Stack.Flat.run (hbuf : BuffersApart buffer) {acts : List (StackAct (Proc (Nat → UInt8)))}
    (hrun : Machine.Steps (Stack.step ⟨false⟩ (ramdiskStack heap fuel buffer))
      (Stack.Orderly (ramdiskStack heap fuel buffer)) s acts s')
    (h : s.Flat buffer) (ha : s.Agrees ⟨false⟩ (ramdiskStack heap fuel buffer)) {asked : List Order}
    (hacc : s.Accounts (fun o r => r.order = o) asked) :
      s'.Flat buffer ∧ s'.Agrees ⟨false⟩ (ramdiskStack heap fuel buffer) ∧
      s'.Accounts (fun o r => r.order = o) (asked ++ orders acts) := by
  induction hrun generalizing asked with
  | nil s => exact ⟨h, ha, by rw [orders, List.filterMap_nil, List.append_nil]; exact hacc⟩
  | @cons s t u act acts hok hs _ ih =>
    have hhonest : (ramdiskStack heap fuel buffer).Honest ⟨false⟩ := library_honest (fun _ _ _ _ => rfl)
    obtain ⟨hflat, hagrees, haccounts⟩ := ih (h.step ha hbuf hok hs) (ha.step hhonest hok.admits hs)
      (h.accounts hacc ha hok hs)
    refine ⟨hflat, hagrees, ?_⟩
    rw [orders_cons, ← List.append_assoc]
    exact haccounts

/-- Without new requests a run comes to its end. -/
theorem Stack.Flat.serves_length_le (hbuf : BuffersApart buffer) (h : s.Flat buffer)
    (ha : s.Agrees ⟨false⟩ (ramdiskStack heap fuel buffer)) {threads : List Tid} (hw : s.Awake threads)
    {acts : List (StackAct (Proc (Nat → UInt8)))}
    (hrun : Machine.Steps (Stack.step ⟨false⟩ (ramdiskStack heap fuel buffer))
      (fun s act => act.Serves ∧ s.Orderly (ramdiskStack heap fuel buffer) act) s acts s') : acts.length ≤
        s.load threads := by
  have hhonest : (ramdiskStack heap fuel buffer).Honest ⟨false⟩ := library_honest (fun _ _ _ _ => rfl)
  refine hrun.length_le (I := fun s => s.Flat buffer ∧ s.Agrees ⟨false⟩ (ramdiskStack heap fuel buffer) ∧
    s.Awake threads)
    ?_ ⟨h, ha, hw⟩
  rintro s act s' ⟨hflat, hagrees, hawake⟩ ⟨hact, hok⟩ hs
  obtain ⟨t, hserved⟩ := hagrees.served hflat.isBlk hhonest.buffers hact hs
  obtain ⟨hawake', hless⟩ := hserved.load_lt hawake
  exact ⟨⟨hflat.step hagrees hbuf hok hs, hagrees.step hhonest hok.admits hs, hawake'⟩, hless⟩

end

/-- A run over the ramdisk, as one over a flat disk. -/
structure Stack.RunsFlat (B : Backend (Proc (Nat → UInt8)) (Proc (Nat → UInt8))) (asked : List Order)
    (s : Stack (Proc (Nat → UInt8))) : Prop where
  /-- what has been completed was successful, and a read has found what the writes completed
      before it have stored -/
  right : AllRight s.kernel.ended
  whole : ∀ r ∈ s.kernel.ended, r.length = (chainBytes r.rq).length
  /-- which is, byte by byte, what the last of them has stored there -/
  found : ∀ before r after, s.kernel.ended = before ++ r :: after → r.type = .read →
    ∀ i < r.length, r.Found before i
  /-- nothing else has been completed than what was asked for, nothing twice, and what has
      not is outstanding -/
  accounts : s.Accounts (fun o r => r.order = o) asked
  /-- outside the writes in flight the disk is what the completed writes have stored -/
  disk : ∀ b, (∀ p, s.kernel.busy p = true → (s.kernel.req p).type = .write → ¬ (s.kernel.req p).Covers b) →
    s.proc.dev b = flatDisk s.kernel.ended b
  /-- a byte of the disk changes for a write in flight that covers it, and for nothing else -/
  changes : ∀ act s' b, s.Orderly B act → s.step ⟨false⟩ B act = some s' → s'.proc.dev b ≠ s.proc.dev b →
    ∃ p, s.kernel.busy p = true ∧ (s.kernel.req p).type = .write ∧ (s.kernel.req p).Covers b
  /-- without new requests and connections it comes to its end -/
  ends : ∃ n, ∀ acts s', Machine.Steps (Stack.step ⟨false⟩ B) (fun s act => act.Serves ∧ s.Orderly B act)
    s acts s' →
    acts.length ≤ n
  /-- and at its end nothing is outstanding, where there is a connection -/
  completes : (∃ c, (s.loop c).point ≠ .starting) →
    (∀ act : StackAct (Proc (Nat → UInt8)), act.Serves → s.Orderly B act → s.step ⟨false⟩ B act = none) →
    ∀ p, s.kernel.busy p = false

/-- **The full stack refines a flat byte array**: every run of the kernel module, any number
    of connections and the loops of the library over the ramdisk, in which two requests with
    a common byte, one of them a write, are never outstanding together. -/
theorem ramdisk_flat (heap fuel : Nat) {buffer : Nat → Nat} (hbuf : BuffersApart buffer) {k2u : Nat → K2u}
    {u2k : Nat → U2k} {mem : Nat → UInt8} {acts : List (StackAct (Proc (Nat → UInt8)))}
    {s : Stack (Proc (Nat → UInt8))} (hrun : Machine.Steps (Stack.step ⟨false⟩ (ramdiskStack heap fuel buffer))
      (Stack.Orderly (ramdiskStack heap fuel buffer)) (Stack.init k2u u2k ⟨mem, fun _ => 0⟩) acts s) :
    s.RunsFlat (ramdiskStack heap fuel buffer) (orders acts) := by
  obtain ⟨hflat, hagrees, haccounts⟩ := Stack.Flat.run hbuf hrun (.init k2u u2k mem) (.init k2u u2k _)
    (.init k2u u2k _)
  have hreach : Machine.Reach (Stack.step ⟨false⟩ (ramdiskStack heap fuel buffer))
      (Stack.Orderly (ramdiskStack heap fuel buffer)) (Stack.init k2u u2k ⟨mem, fun _ => 0⟩) s := ⟨acts, hrun⟩
  obtain ⟨threads, hawake⟩ := Stack.reach_awake hreach
  have hwhole := haccounts.whole (orders_whole hrun)
  refine ⟨hflat.right, hwhole, fun before r after heq htype i hi => hflat.right.found hwhole heq htype hi,
    haccounts, hflat.disk, fun act s' b hok hs hb => hflat.changes hagrees hok hs hb,
    ⟨s.load threads, fun more s' hmore => hflat.serves_length_le hbuf hagrees hawake hmore⟩,
      fun hconn hstuck p => ?_⟩
  obtain ⟨c, hc⟩ := hconn
  exact hagrees.quiescent (Stack.reach_blkCalls hreach) (Stack.reach_housed hreach) hflat.isBlk
    (fun d hd => hflat.leaves hagrees hd) (fun act hact hok => hstuck act hact (hact.orderly hok)) hc p

/-- Copy buffers one behind the other. -/
def rowOfBuffers (c : Nat) : Nat := biusMaxSizePerCommand * (c + 1)

theorem rowOfBuffers_apart : BuffersApart rowOfBuffers := by
  intro c d hne
  unfold rowOfBuffers biusMaxSizePerCommand
  omega

/-- A write of seven bytes over the first connection, in two segments and two chunks; then
    a read of three of them over the second. -/
def writeThenRead : List (StackAct (Proc (Nat → UInt8))) :=
  [.attach 0, .mmap 0 0, .attach 1, .mmap 1 0,
   .block (.queueRq (.blk 0) 5
    ⟨1, 0, 7, [⟨[⟨16, 0, [21, 22, 23], by decide⟩, ⟨17, 0, [24, 25, 26, 27], by decide⟩]⟩], fun _ => rfl⟩),
   .block (.insert (.blk 0)), .block (.ret (.blk 0)),
   .read 0 [], .take 0, .send 0, .readReturn 0, .read 0 [2, 0], .readReturn 0, .read 0 [], .readReturn 0, .reply 0,
   .write 0, .writeEnd 0, .writeReturn 0,
   .block (.queueRq (.blk 0) 5 ⟨0, 0, 3, [⟨[⟨18, 0, [9, 9, 9], by decide⟩]⟩], fun _ => rfl⟩),
   .block (.insert (.blk 0)), .block (.ret (.blk 0)),
   .read 1 [], .take 1, .send 1, .readReturn 1, .reply 1, .write 1, .writeEnd 1, .writeReturn 1]

theorem ramdisk_flat_writeThenRead : ∃ s : Stack (Proc (Nat → UInt8)),
    Machine.Steps (Stack.step ⟨false⟩ (ramdiskStack 0 1 rowOfBuffers)) (Stack.Orderly (ramdiskStack 0 1 rowOfBuffers))
      (Stack.init (fun _ => ⟨0, .read, 0, 0, 0, 0, .unmapped⟩) (fun _ => ⟨0, 0, 0⟩)
        ⟨fun _ => 0, fun _ => 0⟩) writeThenRead s ∧
    s.kernel.ended.map (fun r => chainBytes r.rq) = [[21, 22, 23, 24, 25, 26, 27], [21, 22, 23]] ∧
    s.RunsFlat (ramdiskStack 0 1 rowOfBuffers) (orders writeThenRead) := by
  have hrun : ∃ s : Stack (Proc (Nat → UInt8)),
      Machine.Steps (Stack.step ⟨false⟩ (ramdiskStack 0 1 rowOfBuffers))
        (Stack.Orderly (ramdiskStack 0 1 rowOfBuffers))
        (Stack.init (fun _ => ⟨0, .read, 0, 0, 0, 0, .unmapped⟩) (fun _ => ⟨0, 0, 0⟩)
        ⟨fun _ => 0, fun _ => 0⟩) writeThenRead s ∧
      s.kernel.ended.map (fun r => chainBytes r.rq) = [[21, 22, 23, 24, 25, 26, 27], [21, 22, 23]] := by
    refine ⟨_, .cons trivial rfl (.cons trivial rfl
      (.cons trivial rfl (.cons trivial rfl (.cons ?_ rfl (.cons trivial rfl
      (.cons trivial rfl (.cons ?_ rfl (.cons trivial rfl (.cons trivial rfl (.cons trivial rfl (.cons ?_ rfl
      (.cons trivial rfl (.cons ?_ rfl (.cons trivial rfl (.cons trivial rfl (.cons trivial rfl (.cons trivial rfl
      (.cons trivial rfl (.cons ?_ rfl (.cons trivial rfl (.cons trivial rfl (.cons ?_ rfl (.cons trivial rfl
      (.cons trivial rfl (.cons trivial rfl (.cons trivial rfl (.cons trivial rfl (.cons trivial rfl (.cons trivial rfl
      (.nil _)))))))))))))))))))))))))))))), rfl⟩
    · exact ⟨Or.inr rfl, by decide, by decide, fun q hq => by cases hq⟩
    · intro s' hs'
      cases hs'
      show Call.readWait 0 ≠ _
      simp
    · intro s' hs'
      cases hs'
      show Call.done (.payload [21, 22]) ≠ _
      simp
    · intro s' hs'
      cases hs'
      show Call.done (.payload [23, 24, 25, 26, 27]) ≠ _
      simp
    · -- the write has been completed
      refine ⟨Or.inl rfl, by decide, by decide, fun q hq => ?_⟩
      change Function.update (Function.update (fun _ => false) 5 true) 5 false q = true at hq
      by_cases hq5 : q = 5
      · subst hq5
        cases hq
      · rw [Function.update_of_ne hq5, Function.update_of_ne hq5] at hq
        cases hq
    · intro s' hs'
      cases hs'
      show Call.readWait 1 ≠ _
      simp
  obtain ⟨s, hsteps, hended⟩ := hrun
  exact ⟨s, hsteps, hended, ramdisk_flat 0 1 rowOfBuffers_apart hsteps⟩

end Bius
