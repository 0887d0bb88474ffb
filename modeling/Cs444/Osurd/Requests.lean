import Cs444.Osurd.Modes

namespace cs444.osurd

/-- The arguments of a call of `osurd_transfer`. -/
structure Span where
  sector : Nat
  nsect : Nat
  buffer : Nat
  write : Bool
deriving DecidableEq, Repr

def Span.transfer (tfm : crypto_cipher) (m : Machine) (t : Span) : Machine :=
  osurd_transfer tfm m t.sector t.nsect t.buffer t.write

/-- What a request function does with a request: `blk_fetch_request` returns it, its fields are read,
    a part of it is transferred, the block layer completes it. -/
inductive Access where
  | fetch (id : Nat)
  | read (id : Nat)
  | transfer (id : Nat) (span : Span)
  | finish (id : Nat) (error : Int)
deriving DecidableEq, Repr

namespace Access

def id : Access → Nat
  | fetch id | read id | transfer id _ | finish id _ => id

def span? : Access → Option Span
  | transfer _ t => some t
  | _ => none

def finishes : Access → Bool
  | finish _ _ => true
  | _ => false

end Access

/-- The current segment of a request, as `osurd_request` transfers it. -/
def curSpan (req : request) : Span :=
  ⟨req.pos, blk_rq_cur_sectors req, buffer req, req.write⟩

/-- Every segment once, at its own length, from sector `pos` on. -/
def ownSpans (write : Bool) : Nat → List bio_vec → List Span
  | _, [] => []
  | pos, v :: vs =>
    ⟨pos, v.bv_len / KERNEL_SECTOR_SIZE, v.addr, write⟩ :: ownSpans write (pos + v.bv_len / KERNEL_SECTOR_SIZE) vs

/-- The transfers of `osurd_xfer_bio`, every segment with the length of the first one. -/
def segmentSpans (nsect : Nat) (write : Bool) : Nat → List bio_vec → List Span
  | _, [] => []
  | sector, v :: vs => ⟨sector, nsect, v.addr, write⟩ :: segmentSpans nsect write (sector + nsect) vs

/-- The transfers of `osurd_xfer_request`. -/
def xferSpans (bios : List bio) : List Span :=
  bios.flatMap fun b => segmentSpans (bio_cur_bytes b / KERNEL_SECTOR_SIZE) b.bi_rw b.bi_sector b.bi_io_vec

namespace logged

/-- What `blk_fetch_request` returns. -/
def fetched (queue : List request) : List Access :=
  queue.head?.toList.map fun req => .fetch req.id

/-- The loop of `osurd_request` with a log of its accesses. It returns the machine, the log and the
    requests that were not fetched; stopped before it returns, it has the log so far. -/
def osurd_request_loop (tfm : crypto_cipher) : Nat → Option request → List request → Machine → List Access →
    Except (List Access) (Machine × List Access × List request)
  | _, none, queue, m, log => .ok (m, log, queue)
  | 0, some _, _, _, log => .error log
  | fuel + 1, some req, queue, m, log =>
    if req.cmd_type ≠ .fs then
      osurd_request_loop tfm fuel (some req) queue { m with completed := m.completed ++ [(req.id, - EIO)] }
        (log ++ [.read req.id, .finish req.id (- EIO)])
    else
      let m := (curSpan req).transfer tfm m
      let log := log ++ [.read req.id, .transfer req.id (curSpan req)]
      match blk_end_request_cur req with
      | some req => osurd_request_loop tfm fuel (some req) queue m log
      | none =>
        osurd_request_loop tfm fuel queue.head? queue.tail { m with completed := m.completed ++ [(req.id, 0)] }
          (log ++ [.finish req.id 0] ++ fetched queue)

def osurd_request (tfm : crypto_cipher) (fuel : Nat) (queue : List request) (m : Machine) :
    Except (List Access) (Machine × List Access × List request) :=
  osurd_request_loop tfm fuel queue.head? queue.tail m (fetched queue)

/-- The loop of `osurd_full_request`. All that is left of the request is transferred before one segment
    of it is completed, and what `blk_fetch_request` returns behind the last one is dropped: `req` stays
    the request that is finished. -/
def osurd_full_request_loop (tfm : crypto_cipher) : Nat → Option request → List request → Machine → List Access →
    Except (List Access) (Machine × List Access × List request)
  | _, none, queue, m, log => .ok (m, log, queue)
  | 0, some _, _, _, log => .error log
  | fuel + 1, some req, queue, m, log =>
    if req.cmd_type ≠ .fs then
      osurd_full_request_loop tfm fuel (some req) queue { m with completed := m.completed ++ [(req.id, - EIO)] }
        (log ++ [.read req.id, .finish req.id (- EIO)])
    else
      let m := (osurd_xfer_request tfm m req).1
      let log := log ++ .read req.id :: (xferSpans req.bios).map (.transfer req.id)
      match blk_end_request_cur req with
      | some req => osurd_full_request_loop tfm fuel (some req) queue m log
      | none =>
        osurd_full_request_loop tfm fuel (some { req with bios := [] }) queue.tail
          { m with completed := m.completed ++ [(req.id, 0)] } (log ++ [.finish req.id 0] ++ fetched queue)

def osurd_full_request (tfm : crypto_cipher) (fuel : Nat) (queue : List request) (m : Machine) :
    Except (List Access) (Machine × List Access × List request) :=
  osurd_full_request_loop tfm fuel queue.head? queue.tail m (fetched queue)

end logged

section Effects

variable {tfm : crypto_cipher}

/-- Without its log the loop is that of `osurd_request`. -/
theorem logged_request_loop (fuel : Nat) (req : Option request) (queue : List request) (m : Machine)
    (log : List Access) :
    ((logged.osurd_request_loop tfm fuel req queue m log).map Prod.fst).mapError (fun _ => Fault.spin) =
      osurd_request_loop tfm fuel req queue m := by
  induction fuel generalizing req queue m log with
  | zero => cases req <;> rfl
  | succ fuel ih =>
    cases req with
    | none => rfl
    | some req =>
      rw [logged.osurd_request_loop, osurd_request_loop]
      by_cases hfs : req.cmd_type ≠ .fs
      · rw [if_pos hfs, if_pos hfs]
        exact ih _ _ _ _
      · rw [if_neg hfs, if_neg hfs]
        dsimp only
        cases blk_end_request_cur req with
        | some req' => exact ih _ _ _ _
        | none => exact ih _ _ _ _

theorem xfer_segments_spans (nsect : Nat) (write : Bool) (m : Machine) (sector : Nat) (vs : List bio_vec) :
    xfer_segments tfm nsect write m sector vs = (segmentSpans nsect write sector vs).foldl (Span.transfer tfm) m := by
  induction vs generalizing m sector with
  | nil => rfl
  | cons v vs ih =>
    rw [xfer_segments, segmentSpans, List.foldl_cons]
    exact ih _ _

/-- The transfers in the log of `osurd_full_request` are those that were made. -/
theorem osurd_xfer_request_spans (m : Machine) (req : request) :
    (osurd_xfer_request tfm m req).1 = (xferSpans req.bios).foldl (Span.transfer tfm) m := by
  rw [osurd_xfer_request_fst, xferSpans, List.foldl_flatMap]
  congr 1
  funext m b
  exact xfer_segments_spans _ _ m _ _

end Effects

section Simple

variable {tfm : crypto_cipher} {req : request} {queue : List request}

/-- A request of one or more segments, in bios that are not empty. -/
structure Segmented (req : request) : Prop where
  bios : req.bios ≠ []
  segments : ∀ b ∈ req.bios, b.bi_io_vec ≠ []

/-- The accesses to one request: it is finished once, with the right error code and as the last of them,
    and its transfers before that are the given ones. -/
def Finished (req : request) (error : Int) (spans : List Span) (log : List Access) : Prop :=
  ∃ before, log = before ++ [.finish req.id error] ∧ (∀ a ∈ before, a.finishes = false) ∧
    before.filterMap Access.span? = spans

/-- The accesses to one of the requests. -/
def accesses (req : request) (log : List Access) : List Access :=
  log.filter fun a => a.id = req.id

/-- All requests have been fetched; each file system request is finished after each segment was
    transferred once, the others with `-EIO`; and none is accessed after it is finished. -/
structure Served (queue : List request) (log : List Access) (rest : List request) : Prop where
  rest : rest = []
  fs : ∀ req ∈ queue, req.cmd_type = .fs →
    Finished req 0 (ownSpans req.write req.pos (segments req)) (accesses req log)
  other : ∀ req ∈ queue, req.cmd_type ≠ .fs → Finished req (- EIO) [] (accesses req log)

theorem blk_end_request_cur_segmented {req' : request} (hseg : Segmented req)
    (h : blk_end_request_cur req = some req') :
    Segmented req' ∧ ownSpans req.write req.pos (segments req) =
      curSpan req :: ownSpans req'.write req'.pos (segments req') := by
  obtain ⟨id, cmd_type, write, pos, bios⟩ := req
  obtain ⟨-, hne⟩ := hseg
  match bios with
  | [] => simp [blk_end_request_cur] at h
  | ⟨sec, rw, v :: v' :: vs⟩ :: bs =>
    obtain rfl := by simpa [blk_end_request_cur] using h
    refine ⟨⟨by simp, ?_⟩, ?_⟩
    · intro b hb
      obtain rfl | hb := List.mem_cons.mp hb
      · simp
      · exact hne b (List.mem_cons_of_mem _ hb)
    · simp [segments, ownSpans, curSpan, blk_rq_cur_sectors, bio_cur_bytes, buffer]
  | ⟨sec, rw, [v]⟩ :: bs =>
    obtain ⟨hbs, rfl⟩ := by simpa [blk_end_request_cur] using h
    refine ⟨⟨hbs, fun b hb => hne b (List.mem_cons_of_mem _ hb)⟩, ?_⟩
    simp [segments, ownSpans, curSpan, blk_rq_cur_sectors, bio_cur_bytes, buffer]
  | ⟨sec, rw, []⟩ :: bs => exact absurd rfl (hne _ List.mem_cons_self)

theorem blk_end_request_cur_last (hseg : Segmented req) (h : blk_end_request_cur req = none) :
    ownSpans req.write req.pos (segments req) = [curSpan req] := by
  obtain ⟨id, cmd_type, write, pos, bios⟩ := req
  obtain ⟨hbios, hne⟩ := hseg
  match bios with
  | [] => exact absurd rfl hbios
  | ⟨sec, rw, v :: v' :: vs⟩ :: bs => simp [blk_end_request_cur] at h
  | ⟨sec, rw, [v]⟩ :: bs =>
    obtain rfl : bs = [] := by simpa [blk_end_request_cur] using h
    simp [segments, ownSpans, curSpan, blk_rq_cur_sectors, bio_cur_bytes, buffer]
  | ⟨sec, rw, []⟩ :: bs => exact absurd rfl (hne _ List.mem_cons_self)

/-- The accesses to a file system request after it was fetched. -/
def serveLog (req : request) : List Access :=
  (ownSpans req.write req.pos (segments req)).flatMap (fun t => [.read req.id, .transfer req.id t]) ++
    [.finish req.id 0]

/-- The loop gets through a file system request and fetches the next one. -/
theorem logged_request_loop_fs (tfm : crypto_cipher) (hfs : req.cmd_type = .fs) (hseg : Segmented req) (fuel : Nat)
    (queue : List request) (m : Machine) (log : List Access) :
    logged.osurd_request_loop tfm (fuel + iterations req.bios) (some req) queue m log =
      logged.osurd_request_loop tfm fuel queue.head? queue.tail (serve tfm m req)
        (log ++ serveLog req ++ logged.fetched queue) := by
  generalize hn : iterations req.bios = n
  induction n generalizing req m log with
  | zero => exact absurd hn (iterations_pos hseg.bios).ne'
  | succ n ih =>
    rw [← Nat.add_assoc, logged.osurd_request_loop, if_neg (by simp [hfs])]
    cases hend : blk_end_request_cur req with
    | some req' =>
      obtain ⟨hid, htype, hwrite, -, hiter, htransfer⟩ := blk_end_request_cur_some hend tfm m
      obtain ⟨hseg', hspans⟩ := blk_end_request_cur_segmented hseg hend
      dsimp only
      rw [ih (htype.trans hfs) hseg' _ _ (by omega)]
      congr 1
      · rw [serve, serve, hwrite, hid, htransfer]
        rfl
      · rw [serveLog, serveLog, hspans, hid]
        simp
    | none =>
      obtain ⟨hiter, htransfer⟩ := blk_end_request_cur_none hend tfm m
      obtain rfl : n = 0 := by omega
      have hspans := blk_end_request_cur_last hseg hend
      dsimp only
      rw [serve, htransfer, serveLog, hspans]
      simp [Span.transfer, curSpan]

/-- The accesses to a queue of file system requests. -/
def queueLog (queue : List request) : List Access :=
  queue.flatMap fun req => .fetch req.id :: serveLog req

/-- `osurd_request` serves a queue of file system requests in order and returns. -/
theorem logged_request_fs (tfm : crypto_cipher) (hfs : ∀ req ∈ queue, req.cmd_type = .fs) (hseg : ∀ req ∈ queue, Segmented req)
    (m : Machine) (log : List Access) :
    logged.osurd_request_loop tfm (queue.map fun req => iterations req.bios).sum queue.head? queue.tail m
        (log ++ logged.fetched queue) = .ok (queue.foldl (serve tfm) m, log ++ queueLog queue, []) := by
  induction queue generalizing m log with
  | nil => simp [logged.osurd_request_loop, logged.fetched, queueLog]
  | cons req queue ih =>
    have hhead := logged_request_loop_fs tfm (hfs req List.mem_cons_self) (hseg req List.mem_cons_self)
      (queue.map fun req => iterations req.bios).sum queue m (log ++ logged.fetched (req :: queue))
    rw [List.map_cons, List.sum_cons, Nat.add_comm, List.head?_cons, List.tail_cons, hhead,
      ih (fun r hr => hfs r (List.mem_cons_of_mem _ hr)) (fun r hr => hseg r (List.mem_cons_of_mem _ hr))]
    simp [queueLog, logged.fetched]

theorem serveLog_id {a : Access} (ha : a ∈ Access.fetch req.id :: serveLog req) : a.id = req.id := by
  simp only [serveLog, List.mem_cons, List.mem_append, List.mem_flatMap, List.not_mem_nil, or_false] at ha
  obtain rfl | ⟨t, -, rfl | rfl⟩ | rfl := ha <;> rfl

theorem accesses_block (r : request) :
    accesses req (Access.fetch r.id :: serveLog r) = if r.id = req.id then Access.fetch r.id :: serveLog r else [] := by
  split
  · rename_i hid
    exact List.filter_eq_self.mpr fun a ha => by simp [serveLog_id ha, hid]
  · rename_i hid
    exact List.filter_eq_nil_iff.mpr fun a ha => by simp [serveLog_id ha, hid]

/-- The accesses to one request of the queue are those made when it is served. -/
theorem accesses_queueLog (hids : (queue.map request.id).Nodup) (hreq : req ∈ queue) :
    accesses req (queueLog queue) = .fetch req.id :: serveLog req := by
  induction queue with
  | nil => cases hreq
  | cons r queue ih =>
    obtain ⟨hnot, hrest⟩ := List.nodup_cons.mp hids
    have hsplit : accesses req (queueLog (r :: queue)) =
        accesses req (.fetch r.id :: serveLog r) ++ accesses req (queueLog queue) := by
      rw [queueLog, List.flatMap_cons, accesses, List.filter_append]
      rfl
    rw [hsplit, accesses_block]
    obtain rfl | hreq := List.mem_cons.mp hreq
    · have hothers : accesses req (queueLog queue) = [] := by
        refine List.filter_eq_nil_iff.mpr fun a ha => ?_
        obtain ⟨r, hr, ha⟩ := List.mem_flatMap.mp ha
        rw [serveLog_id ha]
        intro hid
        exact hnot (List.mem_map.mpr ⟨r, hr, by simpa using hid⟩)
      rw [if_pos rfl, hothers, List.append_nil]
    · have hne : r.id ≠ req.id := by
        intro hid
        exact hnot (hid ▸ List.mem_map.mpr ⟨req, hreq, rfl⟩)
      rw [if_neg hne, List.nil_append]
      exact ih hrest hreq

theorem finished_serveLog (req : request) :
    Finished req 0 (ownSpans req.write req.pos (segments req)) (.fetch req.id :: serveLog req) := by
  rw [serveLog]
  generalize ownSpans req.write req.pos (segments req) = ts
  refine ⟨.fetch req.id :: ts.flatMap fun t => [.read req.id, .transfer req.id t], rfl, ?_, ?_⟩
  · intro a ha
    simp only [List.mem_cons, List.mem_flatMap, List.not_mem_nil, or_false] at ha
    obtain rfl | ⟨t, -, rfl | rfl⟩ := ha <;> rfl
  · induction ts with
    | nil => rfl
    | cons t ts ih => simpa [List.filterMap_cons, Access.span?] using ih

/-- A loop that has returned returns the same with more iterations allowed. -/
theorem logged_request_loop_mono {fuel : Nat} {cur : Option request} {m : Machine} {log : List Access}
    {r : Machine × List Access × List request} (h : logged.osurd_request_loop tfm fuel cur queue m log = .ok r)
    (k : Nat) : logged.osurd_request_loop tfm (fuel + k) cur queue m log = .ok r := by
  induction fuel generalizing cur queue m log with
  | zero =>
    cases cur with
    | none => cases k <;> exact h
    | some req => simp [logged.osurd_request_loop] at h
  | succ fuel ih =>
    cases cur with
    | none => cases k <;> exact h
    | some req =>
      rw [logged.osurd_request_loop] at h
      rw [Nat.add_right_comm, logged.osurd_request_loop]
      split at h
      · rename_i hfs
        rw [if_pos hfs]
        exact ih h
      · rename_i hfs
        rw [if_neg hfs]
        dsimp only at h ⊢
        split at h
        · exact ih h
        · exact ih h

/-- With another request at hand the loop does not get on. -/
theorem logged_request_loop_other (hother : req.cmd_type ≠ .fs) (fuel : Nat) (m : Machine) (log : List Access)
    (r : Machine × List Access × List request) :
    logged.osurd_request_loop tfm fuel (some req) queue m log ≠ .ok r := by
  induction fuel generalizing m log with
  | zero => simp [logged.osurd_request_loop]
  | succ fuel ih =>
    rw [logged.osurd_request_loop, if_pos hother]
    exact ih _ _

theorem fs_of_returns (hseg : ∀ req ∈ queue, req.cmd_type = .fs → Segmented req) {fuel : Nat} {m : Machine}
    {log : List Access} {r : Machine × List Access × List request}
    (h : logged.osurd_request_loop tfm fuel queue.head? queue.tail m log = .ok r) :
    ∀ req ∈ queue, req.cmd_type = .fs := by
  induction queue generalizing m log with
  | nil => simp
  | cons req queue ih =>
    have hfs : req.cmd_type = .fs := by
      by_contra hother
      exact logged_request_loop_other hother fuel m log r h
    have hmore := logged_request_loop_mono h (iterations req.bios)
    rw [List.head?_cons, List.tail_cons, logged_request_loop_fs tfm hfs (hseg req List.mem_cons_self hfs)] at hmore
    intro q hq
    obtain rfl | hq := List.mem_cons.mp hq
    · exact hfs
    · exact ih (fun p hp => hseg p (List.mem_cons_of_mem _ hp)) hmore q hq

/-- `osurd_request` returns with all requests served exactly if every one of them is a file system
    request. -/
theorem served_iff_fs (tfm : crypto_cipher) (m : Machine) (hids : (queue.map request.id).Nodup)
    (hseg : ∀ req ∈ queue, req.cmd_type = .fs → Segmented req) :
    (∃ fuel m' log rest, logged.osurd_request tfm fuel queue m = .ok (m', log, rest) ∧ Served queue log rest) ↔
      ∀ req ∈ queue, req.cmd_type = .fs := by
  constructor
  · rintro ⟨fuel, m', log, rest, hrun, -⟩
    exact fs_of_returns hseg hrun
  · intro hfs
    have hrun := logged_request_fs tfm hfs (fun req hreq => hseg req hreq (hfs req hreq)) m []
    refine ⟨_, _, queueLog queue, [], hrun, rfl, fun req hreq _ => ?_, fun req hreq hother => ?_⟩
    · rw [accesses_queueLog hids hreq]
      exact finished_serveLog req
    · exact absurd (hfs req hreq) hother

/-- Two file system requests, the first of two segments. -/
def twoRequests : List request :=
  [⟨1, .fs, true, 1, [⟨1, true, [⟨0, 512⟩, ⟨5000, 1024⟩]⟩]⟩, ⟨2, .fs, false, 2, [⟨2, false, [⟨9000, 1024⟩]⟩]⟩]

theorem served_iff_fs_twoRequests : (twoRequests.map request.id).Nodup ∧ (∀ req ∈ twoRequests, Segmented req) ∧
    ∃ fuel m' log rest, logged.osurd_request xorCipher fuel twoRequests eightSectors = .ok (m', log, rest) ∧
      Served twoRequests log rest := by
  have hids : (twoRequests.map request.id).Nodup := by decide
  have hseg : ∀ req ∈ twoRequests, Segmented req := by
    simp only [twoRequests, List.forall_mem_cons, List.not_mem_nil, false_imp_iff, implies_true, and_true]
    exact ⟨⟨by simp, by simp⟩, ⟨by simp, by simp⟩⟩
  exact ⟨hids, hseg, (served_iff_fs xorCipher eightSectors hids fun req hreq _ => hseg req hreq).mpr (by decide)⟩

/-- A request that is not of the file system. -/
def otherRequest : request := ⟨1, .other, false, 0, []⟩

/-- It is completed, read and completed again, and the loop does not return. -/
theorem otherRequest_unserved :
    (∀ fuel r, logged.osurd_request xorCipher fuel [otherRequest] eightSectors ≠ .ok r) ∧
      (match logged.osurd_request xorCipher 2 [otherRequest] eightSectors with
        | .error log => log
        | .ok _ => []) = [.fetch 1, .read 1, .finish 1 (- EIO), .read 1, .finish 1 (- EIO)] ∧
      ¬ ∃ fuel m' log rest, logged.osurd_request xorCipher fuel [otherRequest] eightSectors = .ok (m', log, rest) ∧
        Served [otherRequest] log rest := by
  have hstuck : ∀ fuel r, logged.osurd_request xorCipher fuel [otherRequest] eightSectors ≠ .ok r :=
    fun fuel r => logged_request_loop_other (by decide) fuel _ _ r
  refine ⟨hstuck, rfl, ?_⟩
  rintro ⟨fuel, m', log, rest, hrun, -⟩
  exact hstuck fuel _ hrun

end Simple

section Full

variable {tfm : crypto_cipher}

/-- Every request that was fetched is transferred once and finished once, and not accessed after that. -/
def FullServed (queue : List request) (log : List Access) : Prop :=
  ∀ req ∈ queue, Access.fetch req.id ∈ log → Finished req 0 (xferSpans req.bios) (accesses req log)

/-- A request is read after it was finished. -/
def UsedAfterFinish (log : List Access) : Prop :=
  ∃ before id error after, log = before ++ .finish id error :: after ∧ Access.read id ∈ after

/-- Once there is a request the loop of `osurd_full_request` always has one. -/
theorem full_request_loop_stuck (fuel : Nat) (req : request) (queue : List request) (m : Machine)
    (log : List Access) (r : Machine × List Access × List request) :
    logged.osurd_full_request_loop tfm fuel (some req) queue m log ≠ .ok r := by
  induction fuel generalizing req queue m log with
  | zero => simp [logged.osurd_full_request_loop]
  | succ fuel ih =>
    rw [logged.osurd_full_request_loop]
    split
    · exact ih _ _ _ _
    · dsimp only
      split
      · exact ih _ _ _ _
      · exact ih _ _ _ _

/-- The first request is read after it was finished. -/
theorem full_request_loop_used (req : request) (queue : List request) (m : Machine) (log : List Access) :
    ∃ fuel log', logged.osurd_full_request_loop tfm fuel (some req) queue m log = .error log' ∧
      UsedAfterFinish log' := by
  generalize hn : iterations req.bios = n
  induction n using Nat.strongRecOn generalizing req m log with
  | ind n ih =>
    by_cases hfs : req.cmd_type ≠ .fs
    · refine ⟨2, log ++ [.read req.id, .finish req.id (- EIO), .read req.id, .finish req.id (- EIO)], ?_,
        log ++ [.read req.id], req.id, - EIO, [.read req.id, .finish req.id (- EIO)], by simp, by simp⟩
      simp [logged.osurd_full_request_loop, hfs]
    · cases hend : blk_end_request_cur req with
      | some req' =>
        obtain ⟨-, -, -, -, hiter, -⟩ := blk_end_request_cur_some hend tfm m
        obtain ⟨fuel, log', hrun, hused⟩ := ih (iterations req'.bios) (by omega) req'
          (osurd_xfer_request tfm m req).1
          (log ++ .read req.id :: (xferSpans req.bios).map (.transfer req.id)) rfl
        refine ⟨fuel + 1, log', ?_, hused⟩
        rw [logged.osurd_full_request_loop, if_neg hfs]
        simp only [hend]
        exact hrun
      | none =>
        -- the next iteration is with the finished request
        let first := log ++ .read req.id :: (xferSpans req.bios).map (.transfer req.id)
        refine ⟨2, first ++ .finish req.id 0 :: (logged.fetched queue ++ .read req.id :: .finish req.id 0 ::
          logged.fetched queue.tail), ?_, first, req.id, 0, _, rfl, by simp⟩
        rw [logged.osurd_full_request_loop, if_neg hfs]
        simp only [hend]
        rw [logged.osurd_full_request_loop, if_neg hfs]
        simp [blk_end_request_cur, xferSpans, logged.osurd_full_request_loop, first]

/-- `osurd_full_request` does what it should exactly if nothing is queued. Otherwise it does not return,
    and a request is used after it was finished. -/
theorem fullServed_iff_nil (tfm : crypto_cipher) (m : Machine) (queue : List request) :
    ((∃ fuel m' log rest, logged.osurd_full_request tfm fuel queue m = .ok (m', log, rest) ∧
        FullServed queue log) ↔ queue = []) ∧
      (queue ≠ [] → ∃ fuel log, logged.osurd_full_request tfm fuel queue m = .error log ∧
        UsedAfterFinish log) := by
  cases queue with
  | nil => exact ⟨iff_of_true ⟨0, m, [], [], rfl, by simp [FullServed]⟩ rfl, fun hne => absurd rfl hne⟩
  | cons req queue =>
    refine ⟨iff_of_false ?_ (by simp), fun _ => full_request_loop_used req queue m _⟩
    rintro ⟨fuel, m', log, rest, hrun, -⟩
    exact full_request_loop_stuck fuel req queue m _ _ hrun

/-- A single request of one segment is finished, read again and finished again. -/
theorem fullServed_fails : (∀ req ∈ twoRequests.drop 1, req.cmd_type = .fs) ∧
    (match logged.osurd_full_request xorCipher 2 (twoRequests.drop 1) eightSectors with
      | .error log => log
      | .ok _ => []) =
      [.fetch 2, .read 2, .transfer 2 ⟨2, 2, 9000, false⟩, .finish 2 0, .read 2, .finish 2 0] ∧
    ¬ ∃ fuel m' log rest, logged.osurd_full_request xorCipher fuel (twoRequests.drop 1) eightSectors =
      .ok (m', log, rest) ∧ FullServed (twoRequests.drop 1) log := by
  refine ⟨by decide, rfl, ?_⟩
  rintro ⟨fuel, m', log, rest, hrun, -⟩
  exact full_request_loop_stuck fuel _ _ _ _ _ hrun

end Full

end cs444.osurd
