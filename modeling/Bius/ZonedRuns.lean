import Mathlib.Data.List.Forall2
import Bius.RamdiskRuns
import Bius.ZonedStack

/- Runs of the whole stack over the zoned ramdisk (default build): reads, writes, appends,
   and zones opened and closed, over any number of connections and in any interleaving of
   the lock sections of the emulator. A write or an append that has succeeded owns a range,
   the one that its own call has reserved (`BiusRequest.Owns`); when nothing is outstanding
   these ranges tile each zone up to its write pointer, and a read finds in each of them
   what its request has written (`Stack.Tiled`). `zoned_appends` puts this together, for
   every run. -/
namespace Bius

open Threads

/-! ## A request in the end -/

/-- What `bius_blk_request_end` stores in `rq->bio->bi_iter.bi_sector`. -/
def BiusRequest.bioSector (r : BiusRequest) : Option Nat :=
  if r.type = .zoneAppend then some (toU64 (r.pos.tdiv sectorSize)) else none

/-- A write or an append that has succeeded. -/
def BiusRequest.HasWritten (r : BiusRequest) : Prop := requestIsWrite r.type = true ∧ r.blkResult = blkStsOk

/-- A completed request is what was ordered: with its own segments and payload, and at its
    own place; an append that has succeeded, in the zone to which it was sent. -/
structure BiusRequest.Fulfils (cfg : ZonedConfig) (o : Order) (r : BiusRequest) : Prop where
  type : r.type = o.type
  length : r.length = o.length
  places : chainPlaces r.rq = o.places
  payload : requestIsWrite o.type = true → chainBytes r.rq = o.payload
  pos : o.type ≠ .zoneAppend → r.pos.toNat = o.pos
  zone : o.type = .zoneAppend → r.blkResult = blkStsOk → zoneNumber cfg r.pos.toNat = zoneNumber cfg o.pos

/-- The request has been completed with the result of the call `x`. If it has written, its
    range is the one that this call has reserved, and an append has got the first sector
    of it. -/
structure BiusRequest.Owns (cfg : ZonedConfig) (s : RamSys) (x : Nat × ZoneCall × ZoneRet) (r : BiusRequest) : Prop where
  answered : ZoneAnswered x r
  returned : x ∈ s.done
  reserved : r.HasWritten → ⟨x.1, r.pos.toNat, chainBytes r.rq⟩ ∈ s.shared.log (zoneNumber cfg r.pos.toNat)
  written : r.HasWritten → WrittenBy cfg x (zoneNumber cfg r.pos.toNat) r.pos.toNat (chainBytes r.rq)
  sector : r.HasWritten → r.type = .zoneAppend → ∃ sector, r.bioSector = some sector ∧
    r.pos = (sector * sectorSize : Nat)

section
variable {cfg : ZonedConfig} {disk : Nat → UInt8} {s : RamSys} {x : Nat × ZoneCall × ZoneRet} {r : BiusRequest}

theorem ok_of_blkStatus {status : Nat} (hlt : status < 256) (h : blkStatus status = blkStsOk) : status = blkStsOk := by
  unfold blkStatus blkStsOk at *
  omega

theorem ZoneAnswered.asWrite (h : ZoneAnswered x r) (hw : requestIsWrite r.type = true) :
    ∃ w, x.2.1.asWrite = some w ∧ w.data = chainBytes r.rq ∧ (w.append = false → w.offset = r.pos.toNat) ∧
      (w.append = true → r.pos = toInt64 (x.2.2.position.getD 0)) ∧ (r.type = .zoneAppend → w.append = true) := by
  by_cases happ : r.type = .zoneAppend
  · obtain ⟨offset, hcall, hpos⟩ := h.append happ
    exact ⟨⟨chainBytes r.rq, offset, true⟩, by
      rw [hcall]; rfl, rfl, fun hf => (by cases hf), fun _ => hpos, fun _ => rfl⟩
  · have hwrite : r.type = .write := by
      cases ht : r.type <;> rw [ht] at hw happ <;> first | rfl | exact absurd rfl happ | cases hw
    exact ⟨⟨chainBytes r.rq, r.pos.toNat, false⟩,
      by rw [h.write hwrite]; rfl, rfl, fun _ => rfl, fun hf => (by cases hf),
      fun ha => absurd ha happ⟩

/-- **The range of a write or an append that has succeeded is the one that its call has
    reserved**, in the zone to which it was sent. -/
theorem ZoneAnswered.range (hconv : cfg.numConventionalZones = 0)
    (hsize : cfg.numZones * (cfg.zoneSectors * sectorSize) ≤ 2 ^ 63)
    (hreach : Machine.Reach (zoneStep cfg ramdisk) (fun _ => NoResets cfg) (zoneInit cfg disk) s) (h : ZoneAnswered x r)
    (hx : x ∈ s.done) (hw : r.HasWritten) :
    ∃ w e, x.2.1.asWrite = some w ∧ x.2.2.status = blkStsOk ∧ Reports w e.pos x.2.2.position ∧
      e ∈ s.shared.log (zoneNumber cfg w.offset) ∧ zoneNumber cfg e.pos = zoneNumber cfg w.offset ∧
      e = ⟨x.1, r.pos.toNat, chainBytes r.rq⟩ ∧ w.data = chainBytes r.rq ∧ sectorSize ∣ e.pos ∧
      (r.type = .zoneAppend → r.pos = e.pos) := by
  obtain ⟨w, hcall, hdata, hoffset, hpos, happ⟩ := h.asWrite hw.1
  have hok : x.2.2.status = blkStsOk := ok_of_blkStatus (status_lt ramdisk hreach x hx) (h.result.symm.trans hw.2)
  obtain ⟨-, hnum, hland⟩ := noResets_reach hconv hreach (zoneNumber cfg w.offset)
  obtain ⟨e, he, hid, ⟨-, hedata, hrep⟩, -⟩ := hland.held hnum hx ⟨hcall, rfl⟩ (Nat.zero_le _) hok
  obtain ⟨hlen, hdvd, hzone, hend⟩ := reserved_sectors hconv hreach he
  -- the position comes back through `user_data` and `request->pos`
  have hback : w.append = true → r.pos = e.pos := by
    intro ha
    unfold Reports at hrep
    rw [if_pos ha] at hrep
    rw [hpos ha, hrep, Option.getD_some]
    unfold toInt64
    omega
  have hposn : e.pos = r.pos.toNat := by
    cases ha : w.append with
    | true => rw [hback ha, Int.toNat_natCast]
    | false =>
      unfold Reports at hrep
      rw [if_neg (by rw [ha]; decide)] at hrep
      exact hrep.2.trans (hoffset ha)
  refine ⟨w, e, hcall, hok, hrep, he, hzone, ?_, hdata, hdvd, fun ht => hback (happ ht)⟩
  rw [← hposn, ← hid, ← hdata, ← hedata]

theorem ZoneAnswered.owns (hconv : cfg.numConventionalZones = 0)
    (hsize : cfg.numZones * (cfg.zoneSectors * sectorSize) ≤ 2 ^ 63)
    (hreach : Machine.Reach (zoneStep cfg ramdisk) (fun _ => NoResets cfg) (zoneInit cfg disk) s) (h : ZoneAnswered x r)
    (hx : x ∈ s.done) : r.Owns cfg s x := by
  refine ⟨h, hx, fun hw => ?_, fun hw => ?_, fun hw ht => ?_⟩
  all_goals
    obtain ⟨w, e, hcall, hok, hrep, he, hzone, rfl, hdata, ⟨n, hn⟩, hpos⟩ := h.range hconv hsize hreach hx hw
  · exact hzone ▸ he
  · exact ⟨w, ⟨hcall, hzone.symm⟩, hok, hdata.symm, hrep⟩
  · dsimp only at hn hpos
    have hend := (reserved_sectors hconv hreach he).2.2.2
    dsimp only at hend
    refine ⟨n, ?_, by rw [hpos ht, hn, Nat.mul_comm]⟩
    have hle : n ≤ sectorSize * n := Nat.le_mul_of_pos_left n (by decide)
    have hdiv : ((sectorSize * n : Nat) : Int).tdiv sectorSize = n := by
      rw [Int.natCast_mul]
      exact Int.mul_tdiv_cancel_left _ (by decide)
    rw [BiusRequest.bioSector, if_pos ht, hpos ht, hn, hdiv]
    show some ((n : Int) % 2 ^ 64).toNat = some n
    congr 1
    omega

end

/-! ## The runs -/

section
variable {cfg : ZonedConfig} {heap fuel : Nat} {buffer : Nat → Nat} {disk : Nat → UInt8}
  {before : List ((Nat × ZoneCall × ZoneRet) × BiusRequest)} {s s' : Stack ZonedProc} {asked : List Order}

theorem Stack.Zones.fulfils (hconv : cfg.numConventionalZones = 0)
    (hsize : cfg.numZones * (cfg.zoneSectors * sectorSize) ≤ 2 ^ 63)
    (h : s.Zones cfg buffer disk before) (ha : s.Agrees ⟨false⟩ (zonedLibrary cfg heap fuel buffer)) {c : Nat}
    {p : Ptr} (hat : s.At c p .writing) :
    ((s.kernel.req p).finished ((zonedLibrary cfg heap fuel buffer).umem s.proc) (s.loop c).u2k).Fulfils cfg
      (s.kernel.req p).order := by
  obtain ⟨completed, cs, answer, -, hledger⟩ := h.ledger
  have hret := hledger.replies c p hat
  have hhand := ha.inHand hat
  have hans : ZoneAnswered (answer c)
      ((s.kernel.req p).finished ((zonedLibrary cfg heap fuel buffer).umem s.proc) (s.loop c).u2k) :=
    BiusRequest.zoneAnswered hret (fun _ => rfl) hhand.offered (hhand.u2k rfl)
  have hdone : answer c ∈ s.proc.sys.done :=
    hledger.calls.symm.subset (List.mem_append_right _ (List.mem_map_of_mem ((hledger.inHand c).2 ⟨p, hat⟩)))
  have hplaces := finished_places (s.kernel.req p) ((zonedLibrary cfg heap fuel buffer).umem s.proc) (s.loop c).u2k
  obtain ⟨rq, hfin, hrq⟩ := finished_keeps (s.kernel.req p) ((zonedLibrary cfg heap fuel buffer).umem s.proc)
    (s.loop c).u2k
  rw [hfin] at hans hplaces ⊢
  refine ⟨rfl, rfl, hplaces, fun ht => ?_, fun ht => ?_, fun ht hok => ?_⟩
  · change requestIsWrite (s.kernel.req p).type = true at ht
    show chainBytes rq = if requestIsWrite (s.kernel.req p).type then chainBytes (s.kernel.req p).rq else []
    rw [if_pos ht, hrq (fun hr => by rw [hr] at ht; cases ht)]
  · change (s.kernel.req p).type ≠ .zoneAppend at ht
    dsimp only
    rw [if_neg ht]
    rfl
  · -- the zone of the append is that of the call
    change (s.kernel.req p).type = .zoneAppend at ht
    have hwrite : requestIsWrite (s.kernel.req p).type = true := by rw [ht]; rfl
    obtain ⟨w, e, hcall, -, -, -, hzone, heq, -⟩ := hans.range hconv hsize h.emulator hdone ⟨hwrite, hok⟩
    have hoffset : w.offset = (s.kernel.req p).pos.toNat := by
      rw [hret.call, BiusRequest.zoneCall, ht] at hcall
      cases hcall
      rfl
    rw [heq, hoffset] at hzone
    exact hzone

theorem Stack.Zones.accounts (hconv : cfg.numConventionalZones = 0)
    (hsize : cfg.numZones * (cfg.zoneSectors * sectorSize) ≤ 2 ^ 63) (hacc : s.Accounts (BiusRequest.Fulfils cfg) asked)
    (h : s.Zones cfg buffer disk before) (ha : s.Agrees ⟨false⟩ (zonedLibrary cfg heap fuel buffer))
    {act : StackAct Nat} (hok : s.ForZones cfg (zonedLibrary cfg heap fuel buffer) act)
    (hs : s.step ⟨false⟩ (zonedLibrary cfg heap fuel buffer) act = some s') :
    s'.Accounts (BiusRequest.Fulfils cfg) (asked ++ act.order.toList) := by
  refine hacc.step ha zonedLibrary_honest h.isBlk hok.admits hok.orders (fun t p rq hact => ?_)
    (fun c p _ hat => h.fulfils hconv hsize ha hat) hs
  subst hact
  have hin := hok.2.1
  exact initBlkRequest_order (by omega) _ _

theorem Stack.Zones.init (k2u : Nat → K2u) (u2k : Nat → U2k) (mem : Nat → UInt8) (disk : Nat → UInt8) :
    (Stack.init k2u u2k (⟨mem, zoneInit cfg disk⟩ : ZonedProc)).Zones cfg buffer disk [] := by
  have hnone : ∀ c p point, ¬ (Stack.init k2u u2k (⟨mem, zoneInit cfg disk⟩ : ZonedProc)).At c p point := by
    intro c p point hat
    rcases hat.held with hp | ⟨_, _, hp⟩ <;> cases hp
  refine ⟨fun p hp => (by cases hp), .refl _, fun c p point hat => absurd hat (hnone c p point),
    fun c r hr => (by cases hr), .init disk, [], [], fun _ => (0, .resetAllZone, ⟨0, none, [], []⟩),
      List.nil_prefix, rfl, fun x hx => (by cases hx),
    List.nodup_nil, fun c => ⟨fun hc => (by cases hc), fun ⟨p, hp⟩ => absurd hp (hnone c p _)⟩,
    fun c p hp => absurd hp (hnone c p _), List.Perm.refl []⟩

theorem Stack.Zones.run (hconv : cfg.numConventionalZones = 0)
    (hsize : cfg.numZones * (cfg.zoneSectors * sectorSize) ≤ 2 ^ 63)
    (hbuf : BuffersApart buffer) {acts : List (StackAct Nat)}
    (hrun : Machine.Steps (Stack.step ⟨false⟩ (zonedLibrary cfg heap fuel buffer))
      (Stack.ForZones cfg (zonedLibrary cfg heap fuel buffer)) s acts s')
    (h : s.Zones cfg buffer disk before) (ha : s.Agrees ⟨false⟩ (zonedLibrary cfg heap fuel buffer))
    (hacc : s.Accounts (BiusRequest.Fulfils cfg) asked) : s'.Zones cfg buffer disk before ∧
      s'.Agrees ⟨false⟩ (zonedLibrary cfg heap fuel buffer) ∧
        s'.Accounts (BiusRequest.Fulfils cfg) (asked ++ orders acts) := by
  induction hrun generalizing asked with
  | nil s => exact ⟨h, ha, by rw [orders, List.filterMap_nil, List.append_nil]; exact hacc⟩
  | @cons s t u act acts hok hs _ ih =>
    obtain ⟨hzones, hagrees, haccounts⟩ := ih (h.step hconv hsize hbuf ha hok hs)
      (ha.step zonedLibrary_honest hok.admits hs) (h.accounts hconv hsize hacc ha hok hs)
    refine ⟨hzones, hagrees, ?_⟩
    rw [orders_cons, ← List.append_assoc]
    exact haccounts

/-! ## When nothing is outstanding -/

/-- No call is running then, and every reply has been served. -/
theorem Stack.Zones.atRest (h : s.Zones cfg buffer disk before)
    (ha : s.Agrees ⟨false⟩ (zonedLibrary cfg heap fuel buffer))
    (hrest : ∀ p, s.kernel.busy p = false) : (∀ t, s.proc.sys.thread t = none) ∧
      ∃ completed, before <+: completed ∧ completed.map Prod.snd = s.kernel.ended ∧
        (∀ x ∈ completed, ZoneAnswered x.1 x.2) ∧
        s.proc.sys.done.Perm (completed.map Prod.fst) ∧ s.Zones cfg buffer disk completed := by
  have hnone : ∀ c p point, ¬ s.At c p point := by
    intro c p point hat
    have hp := ha.at_busy hat
    rw [hrest p] at hp
    cases hp
  have hidle : ∀ t, s.proc.sys.thread t = none := by
    intro t
    cases ht : s.proc.sys.thread t with
    | none => rfl
    | some r =>
      obtain ⟨p, hp, -⟩ := h.running t r ht
      exact absurd hp (hnone t p _)
  obtain ⟨completed, cs, answer, hbefore, hledger⟩ := h.ledger
  have hcs : cs = [] := by
    cases cs with
    | nil => rfl
    | cons c cs =>
      obtain ⟨p, hp⟩ := (hledger.inHand c).1 (by simp)
      exact absurd hp (hnone c p _)
  subst hcs
  have hcalls : s.proc.sys.done.Perm (completed.map Prod.fst) := by
    have hperm := hledger.calls
    rwa [List.map_nil, List.append_nil] at hperm
  exact ⟨hidle, completed, hbefore, hledger.ended, hledger.answered, hcalls, h.kind, h.emulator, h.loaded, h.running,
    .start hidle (fun x => hcalls.symm.mem_iff), completed, [], answer, List.prefix_refl _, hledger⟩

end

/-- When nothing is outstanding. -/
structure Stack.Tiled (cfg : ZonedConfig) (B : Backend ZonedProc Nat) (s : Stack ZonedProc) : Prop where
  /-- the ranges that have been written in a zone tile it up to its write pointer -/
  tiles : ∀ z < cfg.numZones, ∀ b,
    (s.proc.sys.shared.zoneInfo z).start * sectorSize ≤ b ∧ b < (s.proc.sys.shared.zoneInfo z).wp * sectorSize ↔
      ∃ r ∈ s.kernel.ended, r.HasWritten ∧ zoneNumber cfg r.pos.toNat = z ∧ r.Covers b
  /-- the emulator finds in each of them what was written there -/
  found : ∀ r ∈ s.kernel.ended, r.HasWritten →
    (callAlone cfg ramdisk s.proc.sys.shared (.read r.pos.toNat r.length)).2 =
    { status := blkStsOk, bytes := chainBytes r.rq }
  /-- and so does every read that is submitted from now on, whatever else goes on -/
  reads : ∀ acts s' later, Machine.Steps (Stack.step ⟨false⟩ B) (Stack.ForZones cfg B) s acts s' →
    s'.kernel.ended = s.kernel.ended ++ later → ∀ q ∈ later, q.type = .read → q.blkResult = blkStsOk ∧
      ∀ r ∈ s.kernel.ended, r.HasWritten → q.pos.toNat ≤ r.pos.toNat →
        r.pos.toNat + r.length ≤ q.pos.toNat + q.length →
        ((chainBytes q.rq).drop (r.pos.toNat - q.pos.toNat)).take r.length = chainBytes r.rq

/-- What the writes and appends of a run come to. -/
structure Stack.Allocates (cfg : ZonedConfig) (B : Backend ZonedProc Nat) (asked : List Order)
    (s : Stack ZonedProc) : Prop where
  /-- nothing else has been completed than what was asked for, nothing twice, and what has
      not is outstanding -/
  accounts : s.Accounts (BiusRequest.Fulfils cfg) asked
  /-- each request has been completed with the result of a call of its own, and if it has
      written, its range is the one that this call has reserved -/
  own : ∃ calls : List (Nat × ZoneCall × ZoneRet), (calls.map Prod.fst).Nodup ∧
    List.Forall₂ (BiusRequest.Owns cfg s.proc.sys) calls s.kernel.ended
  /-- no two of these ranges have a byte in common -/
  disjoint : s.kernel.ended.Pairwise (fun r r' => r.HasWritten → r'.HasWritten →
    r.pos.toNat + r.length ≤ r'.pos.toNat ∨ r'.pos.toNat + r'.length ≤ r.pos.toNat)
  rest : (∀ p, s.kernel.busy p = false) → s.Tiled cfg B
  /-- a loop replies when its call has returned, with the header that `makeReply` makes where
      the call runs alone and returns the same; so does it fill the copy buffer -/
  replies : ∀ c s', s.step ⟨false⟩ B (.reply c) = some s' →
    ∃ call v, zoneCallOf s.proc.load (s.loop c).k2u = some call ∧ s.proc.sys.returning c = some v ∧
      ∀ (heap fuel : Nat) (u2k : U2k) (shared : Zoned (Nat → UInt8)), (callAlone cfg ramdisk shared call).2 = v →
        makeReply (zonedOperations cfg) (Proc.process heap) fuel u2k (s.loop c).k2u ⟨s.proc.mem, shared⟩ =
          some (⟨s'.proc.mem, (callAlone cfg ramdisk shared call).1⟩, (s'.loop c).u2k)

section
variable {cfg : ZonedConfig} {heap fuel : Nat} {buffer : Nat → Nat} {disk : Nat → UInt8}
  {before : List ((Nat × ZoneCall × ZoneRet) × BiusRequest)} {s : Stack ZonedProc} {asked : List Order}

theorem BiusRequest.Owns.held (hconv : cfg.numConventionalZones = 0)
    (hreach : Machine.Reach (zoneStep cfg ramdisk) (fun _ => NoResets cfg) (zoneInit cfg disk) s.proc.sys)
    {x : Nat × ZoneCall × ZoneRet} {r : BiusRequest} (h : r.Owns cfg s.proc.sys x) (hw : r.HasWritten) :
    Held s.proc.sys.shared ⟨x.1, r.pos.toNat, chainBytes r.rq⟩ := by
  obtain ⟨-, hnum, hland⟩ := noResets_reach hconv hreach (zoneNumber cfg r.pos.toNat)
  exact (((h.written hw).wrote h.returned).reserved hnum hland).2

/-- Requests with calls of their own have ranges of their own. -/
theorem Stack.Zones.owns (hconv : cfg.numConventionalZones = 0)
    (hsize : cfg.numZones * (cfg.zoneSectors * sectorSize) ≤ 2 ^ 63)
    (h : s.Zones cfg buffer disk before) :
    (∃ calls : List (Nat × ZoneCall × ZoneRet), (calls.map Prod.fst).Nodup ∧
      List.Forall₂ (BiusRequest.Owns cfg s.proc.sys) calls s.kernel.ended) ∧
    s.kernel.ended.Pairwise (fun r r' => r.HasWritten → r'.HasWritten →
      r.pos.toNat + r.length ≤ r'.pos.toNat ∨ r'.pos.toNat + r'.length ≤ r.pos.toNat) := by
  obtain ⟨completed, cs, answer, -, hledger⟩ := h.ledger
  obtain ⟨hst, hnum, -⟩ := noResets_reach hconv h.emulator 0
  have hown : ∀ x ∈ completed, x.2.Owns cfg s.proc.sys x.1 := fun x hx =>
    (hledger.answered x hx).owns hconv hsize h.emulator
      (hledger.calls.symm.subset (List.mem_append_left _ (List.mem_map_of_mem hx)))
  have hnodup : ((completed.map Prod.fst).map Prod.fst).Nodup := by
    have hids := (hledger.calls.map Prod.fst).nodup hnum.nodup
    rw [List.map_append] at hids
    exact (List.nodup_append.1 hids).1
  refine ⟨⟨completed.map Prod.fst, hnodup, ?_⟩, ?_⟩
  · rw [← hledger.ended, List.forall₂_map_left_iff, List.forall₂_map_right_iff, List.forall₂_same]
    exact hown
  · rw [← hledger.ended, List.pairwise_map]
    rw [List.map_map] at hnodup
    refine List.Pairwise.imp_of_mem (fun {x y} hx hy hne hwx hwy => ?_) (List.pairwise_map.1 hnodup)
    have hapart := hst.table.apart ((hown x hx).reserved hwx) ((hown y hy).reserved hwy) hne
    rw [(hown x hx).answered.whole hwx.1, (hown y hy).answered.whole hwy.1]
    exact hapart

/-- A write pointer has gone up by the ranges of the requests that have succeeded in the
    zone, and by no others: once no call is running, each reservation is that of a call that
    has returned, and each such call has been answered to its request. -/
theorem Stack.Zones.tiles (hconv : cfg.numConventionalZones = 0)
    (hreach : Machine.Reach (zoneStep cfg ramdisk) (fun _ => NoResets cfg) (zoneInit cfg disk) s.proc.sys)
    (hidle : ∀ t, s.proc.sys.thread t = none) {completed : List ((Nat × ZoneCall × ZoneRet) × BiusRequest)}
    (hended : completed.map Prod.snd = s.kernel.ended) (hcalls : s.proc.sys.done.Perm (completed.map Prod.fst))
    (hown : ∀ x ∈ completed, x.2.Owns cfg s.proc.sys x.1) {z : Nat} (hz : z < cfg.numZones) (b : Nat) :
    (s.proc.sys.shared.zoneInfo z).start * sectorSize ≤ b ∧ b < (s.proc.sys.shared.zoneInfo z).wp * sectorSize ↔
      ∃ r ∈ s.kernel.ended, r.HasWritten ∧ zoneNumber cfg r.pos.toNat = z ∧ r.Covers b := by
  obtain ⟨hst, hnum, hland⟩ := noResets_reach hconv hreach z
  rw [ranges_tile hconv hreach hidle hz]
  constructor
  · rintro ⟨id, data, pos, hwrote, hb⟩
    have he := (hwrote.reserved hnum hland).1
    -- the call has returned, and its request has been completed
    obtain ⟨c, v, w, hdone, hw, hok, hdata, hrep⟩ := hwrote
    obtain ⟨⟨x, r⟩, hx, hxe⟩ := List.mem_map.1 (hcalls.subset hdone)
    change x = (id, c, v) at hxe
    have hox := hown (x, r) hx
    have hwrite : requestIsWrite r.type = true := by
      by_contra hnot
      have hnone := hox.answered.other (by simpa using hnot)
      rw [hxe] at hnone
      exact absurd (hw.1.symm.trans hnone) (by simp)
    have hhas : r.HasWritten := by
      refine ⟨hwrite, ?_⟩
      rw [hox.answered.result]
      dsimp only
      rw [hxe, hok]
      rfl
    obtain ⟨hz', heq⟩ := hst.table.uniq _ _ _ _ he (hox.reserved hhas) (by dsimp only; rw [hxe])
    obtain ⟨-, rfl, rfl⟩ := Reserved.mk.inj heq
    refine ⟨r, ?_, hhas, hz'.symm, ?_⟩
    · rw [← hended]
      exact List.mem_map.2 ⟨_, hx, rfl⟩
    · unfold BiusRequest.Covers
      rw [hox.answered.whole hwrite]
      exact hb
  · rintro ⟨r, hr, hw, rfl, hb⟩
    rw [← hended] at hr
    obtain ⟨⟨x, r⟩, hx, rfl⟩ := List.mem_map.1 hr
    have hox := hown (x, r) hx
    refine ⟨_, _, _, (hox.written hw).wrote hox.returned, ?_⟩
    unfold BiusRequest.Covers at hb
    rw [hox.answered.whole hw.1] at hb
    exact hb

/-- A read that is completed from here on finds what the calls that had returned before it
    have written: its own call is not one of them, as no two calls have the same number. -/
theorem Stack.Zones.readsBack (hconv : cfg.numConventionalZones = 0) (h : s.Zones cfg buffer disk before)
    {later : List BiusRequest} (hlater : s.kernel.ended = before.map Prod.snd ++ later) {q : BiusRequest}
    (hq : q ∈ later) (hread : q.type = .read) : q.blkResult = blkStsOk ∧
      ∀ y ∈ before.map Prod.fst, ∀ z start data, WrittenBy cfg y z start data → q.pos.toNat ≤ start →
        start + data.length ≤ q.pos.toNat + q.length →
          ((chainBytes q.rq).drop (start - q.pos.toNat)).take data.length = data := by
  obtain ⟨completed, cs, answer, ⟨new, rfl⟩, hledger⟩ := h.ledger
  have hnew : later = new.map Prod.snd := by
    have hsnd := hledger.ended
    rw [List.map_append, hlater] at hsnd
    exact (List.append_cancel_left hsnd).symm
  rw [hnew] at hq
  obtain ⟨⟨x, q'⟩, hx, rfl⟩ := List.mem_map.1 hq
  have hdone : x ∈ s.proc.sys.done :=
    hledger.calls.symm.subset (List.mem_append_left _ (List.mem_map.2 ⟨_, List.mem_append_right _ hx, rfl⟩))
  have hlate : x ∉ before.map Prod.fst := by
    obtain ⟨-, hnum, -⟩ := noResets_reach hconv h.emulator 0
    have hids := (hledger.calls.map Prod.fst).nodup hnum.nodup
    rw [List.map_append, List.map_append, List.map_append, List.append_assoc] at hids
    obtain ⟨-, -, hapart⟩ := List.nodup_append.1 hids
    intro hold
    refine hapart x.1 (List.mem_map.2 ⟨_, hold, rfl⟩) x.1 (List.mem_append_left _ ?_) rfl
    exact List.mem_map.2 ⟨_, List.mem_map.2 ⟨_, hx, rfl⟩, rfl⟩
  have hans := hledger.answered (x, q') (List.mem_append_right _ hx)
  obtain ⟨hcall, hbytes⟩ := hans.read hread
  dsimp only at hcall hbytes hans ⊢
  obtain ⟨hok, -, hfound⟩ := (h.finding.done x hdone).resolve_left hlate _ _ hcall
  refine ⟨by rw [hans.result, hok]; rfl, fun y hy z start data hwritten hlo hhi => ?_⟩
  rw [hbytes hok]
  exact hfound y hy z start data hwritten hlo hhi

/-- **When nothing is outstanding the ranges tile the zones**, and can be read back. -/
theorem Stack.Zones.tiled (hconv : cfg.numConventionalZones = 0)
    (hsize : cfg.numZones * (cfg.zoneSectors * sectorSize) ≤ 2 ^ 63)
    (hbuf : BuffersApart buffer) (h : s.Zones cfg buffer disk before)
    (ha : s.Agrees ⟨false⟩ (zonedLibrary cfg heap fuel buffer)) (hacc : s.Accounts (BiusRequest.Fulfils cfg) asked)
    (hrest : ∀ p, s.kernel.busy p = false) : s.Tiled cfg (zonedLibrary cfg heap fuel buffer) := by
  obtain ⟨hidle, completed, -, hended, hanswered, hcalls, hzones⟩ := h.atRest ha hrest
  have hown : ∀ x ∈ completed, x.2.Owns cfg s.proc.sys x.1 := fun x hx =>
    (hanswered x hx).owns hconv hsize h.emulator (hcalls.symm.subset (List.mem_map_of_mem hx))
  have hmem : ∀ r ∈ s.kernel.ended, ∃ x, (x, r) ∈ completed := by
    intro r hr
    rw [← hended] at hr
    obtain ⟨⟨x, r'⟩, hx, rfl⟩ := List.mem_map.1 hr
    exact ⟨x, hx⟩
  refine ⟨fun z hz b => Stack.Zones.tiles hconv h.emulator hidle hended hcalls hown hz b, fun r hr hw => ?_,
    fun acts s' later hrun hlater q hq hread => ?_⟩
  · obtain ⟨x, hx⟩ := hmem r hr
    have hox := hown (x, r) hx
    rw [hox.answered.whole hw.1]
    exact (hox.held hconv h.emulator hw).read
  · -- from here on `Finding` follows the reads
    obtain ⟨hzones', -, -⟩ := Stack.Zones.run hconv hsize hbuf hrun hzones ha hacc
    obtain ⟨hok, hfound⟩ := hzones'.readsBack hconv (hlater.trans (by rw [hended])) hq hread
    refine ⟨hok, fun r hr hw hlo hhi => ?_⟩
    obtain ⟨y, hy⟩ := hmem r hr
    have hoy := hown (y, r) hy
    have hwhole := hoy.answered.whole hw.1
    rw [hwhole]
    refine hfound y (List.mem_map.2 ⟨_, hy, rfl⟩) _ _ _ (hoy.written hw) hlo ?_
    rw [← hwhole]
    exact hhi

/-- A loop replies as `makeReply` does where its call runs alone and returns the same. -/
theorem Stack.Zones.replies (hsize : cfg.numZones * (cfg.zoneSectors * sectorSize) ≤ 2 ^ 63)
    (h : s.Zones cfg buffer disk before) (ha : s.Agrees ⟨false⟩ (zonedLibrary cfg heap fuel buffer)) {c : Nat}
    {s' : Stack ZonedProc} (hs : s.step ⟨false⟩ (zonedLibrary cfg heap fuel buffer) (.reply c) = some s') :
    ∃ call v, zoneCallOf s.proc.load (s.loop c).k2u = some call ∧ s.proc.sys.returning c = some v ∧
      ∀ (heap fuel : Nat) (u2k : U2k) (shared : Zoned (Nat → UInt8)), (callAlone cfg ramdisk shared call).2 = v →
        makeReply (zonedOperations cfg) (Proc.process heap) fuel u2k (s.loop c).k2u ⟨s.proc.mem, shared⟩ =
          some (⟨s'.proc.mem, (callAlone cfg ramdisk shared call).1⟩, (s'.loop c).u2k) := by
  obtain ⟨p, hat, hleave⟩ := ha.reply_leaves hs
  have hcall : zoneCallOf s.proc.load (s.loop c).k2u = some (s.kernel.req p).zoneCall := by
    rw [(ha.inHand hat).k2u (by simp)]
    exact (h.kind p (ha.at_busy hat)).zoneCallOf hsize (h.loaded c p _ hat)
  obtain ⟨v, hv, -, hmem, hu2k⟩ := zonedLibrary_leave hcall hleave
  refine ⟨_, v, hcall, hv, fun heap fuel u2k shared hsame => ?_⟩
  dsimp only at hmem hu2k
  rw [makeReply_zoneCall cfg heap fuel u2k shared hcall, hsame, hmem, hu2k]

end

/-- The configuration of `examples/zoned-ramdisk.c`: 32 GiB in zones of 32 MiB. -/
def zonedRamdisk : ZonedConfig := ⟨1024, 65536, 0, 32, 64, by decide, by decide, by decide⟩

/-- **Concurrent appends and writes get ranges of their own, and are told where they are**:
    in every run of the kernel module, any number of connections and the loops of the library
    over the zoned ramdisk, whose threads run the functions of the emulator in any
    interleaving of their lock sections and accesses to the disk. -/
theorem zoned_appends (heap fuel : Nat) {buffer : Nat → Nat} (hbuf : BuffersApart buffer) {k2u : Nat → K2u}
    {u2k : Nat → U2k} {mem disk : Nat → UInt8} {acts : List (StackAct Nat)} {s : Stack ZonedProc}
    (hrun : Machine.Steps (Stack.step ⟨false⟩ (zonedLibrary zonedRamdisk heap fuel buffer))
      (Stack.ForZones zonedRamdisk (zonedLibrary zonedRamdisk heap fuel buffer))
      (Stack.init k2u u2k ⟨mem, zoneInit zonedRamdisk disk⟩) acts s) :
    s.Allocates zonedRamdisk (zonedLibrary zonedRamdisk heap fuel buffer) (orders acts) := by
  have hsize : zonedRamdisk.numZones * (zonedRamdisk.zoneSectors * sectorSize) ≤ 2 ^ 63 := by decide
  obtain ⟨hzones, hagrees, haccounts⟩ := Stack.Zones.run rfl hsize hbuf hrun (.init k2u u2k mem disk)
    (.init k2u u2k _) (.init k2u u2k _)
  obtain ⟨hown, hdisjoint⟩ := hzones.owns rfl hsize
  exact ⟨haccounts, hown, hdisjoint, fun hrest => hzones.tiled rfl hsize hbuf hagrees haccounts hrest,
    fun c s' hs => hzones.replies hsize hagrees hs⟩

/-! ## Two appends -/

/-- A sector full of one byte. -/
def sectorOf (b : UInt8) : List UInt8 := List.replicate 512 b

theorem sectorOf_pos (b : UInt8) : 0 < (sectorOf b).length := by
  rw [sectorOf, List.length_replicate]
  decide

/-- An append of a sector to the first zone, in one segment. -/
def appendRq (page : Nat) (b : UInt8) : Rq where
  op := 13
  sector := 0
  dataLen := (sectorOf b).length
  bios := [⟨[⟨page, 0, sectorOf b, sectorOf_pos b⟩]⟩]
  len_eq _ := by
    rw [chainBytes_cons, chainBytes_nil, List.append_nil]
    exact congrArg List.length (List.append_nil (sectorOf b)).symm

/-- Two connections have an append each in hand. -/
def twoInHand : List (StackAct Nat) :=
  [.attach 0, .mmap 0 0, .attach 1, .mmap 1 0,
   .block (.queueRq (.blk 0) 5 (appendRq 16 31)), .block (.insert (.blk 0)), .block (.ret (.blk 0)),
   .block (.queueRq (.blk 0) 6 (appendRq 17 32)), .block (.insert (.blk 0)), .block (.ret (.blk 0)),
   .read 0 [], .take 0, .send 0, .readReturn 0, .read 0 [], .readReturn 0,
   .read 1 [], .take 1, .send 1, .readReturn 1, .read 1 [], .readReturn 1]

/-- The second reserves its range first, and stores its data last. -/
def twoCrossing : List (StackAct Nat) :=
  [.process 1, .process 1, .process 1, .process 1, .process 1, .process 1, .process 1,
   .process 0, .process 0, .process 0, .process 0, .process 0, .reply 0, .write 0, .writeEnd 0, .writeReturn 0,
   .process 1, .reply 1, .write 1, .writeEnd 1, .writeReturn 1]

/-- The state after both, with every step checked. -/
def twoAppends : Option (Stack ZonedProc) :=
  Machine.runOk (Stack.step ⟨false⟩ (zonedLibrary zonedRamdisk 0 1 rowOfBuffers))
    (Stack.ForZones zonedRamdisk (zonedLibrary zonedRamdisk 0 1 rowOfBuffers))
    (Stack.init (fun _ => ⟨0, .read, 0, 0, 0, 0, .unmapped⟩) (fun _ => ⟨0, 0, 0⟩)
      ⟨fun _ => 0, zoneInit zonedRamdisk (fun _ => 0)⟩)
    (twoInHand ++ twoCrossing)

theorem twoAppends_isSome : twoAppends.isSome = true := by decide +kernel

theorem twoAppends_sectors :
    (twoAppends.get twoAppends_isSome).kernel.ended.map BiusRequest.bioSector = [some 1, some 0] := by
  decide +kernel

theorem zoned_appends_twoAppends : ∃ s : Stack ZonedProc,
    Machine.Steps (Stack.step ⟨false⟩ (zonedLibrary zonedRamdisk 0 1 rowOfBuffers))
      (Stack.ForZones zonedRamdisk (zonedLibrary zonedRamdisk 0 1 rowOfBuffers))
      (Stack.init (fun _ => ⟨0, .read, 0, 0, 0, 0, .unmapped⟩) (fun _ => ⟨0, 0, 0⟩)
        ⟨fun _ => 0, zoneInit zonedRamdisk (fun _ => 0)⟩) (twoInHand ++ twoCrossing) s ∧
    s.kernel.ended.map BiusRequest.bioSector = [some 1, some 0] ∧
    s.Allocates zonedRamdisk (zonedLibrary zonedRamdisk 0 1 rowOfBuffers) (orders (twoInHand ++ twoCrossing)) ∧
    s.Tiled zonedRamdisk (zonedLibrary zonedRamdisk 0 1 rowOfBuffers) := by
  have hsteps := Machine.Steps.of_runOk (Option.some_get twoAppends_isSome).symm
  have halloc := zoned_appends 0 1 rowOfBuffers_apart hsteps
  refine ⟨_, hsteps, twoAppends_sectors, halloc, halloc.rest ?_⟩
  apply halloc.accounts.none_outstanding
  rw [← List.length_map (f := BiusRequest.bioSector), twoAppends_sectors]
  rfl

end Bius
