import Opqbox.Retrieval

/-!
The expiry of the lists that the triggering daemon writes. The server deletes a
list at its deadline; a push on a missing key creates one without a deadline
(`execute`). The writer sets the deadline only when it opens a list, so every
list has one exactly where a list that is gone on with is still there
(`along_expiring_iff`), which a time to live longer than the rotation ensures
(`along_expiring_of_lt`).
-/
namespace Opqbox.Expiry
open Opqbox.Messages Opqbox.OpqData Opqbox.Runs Opqbox.Scraper Opqbox.RedisWriter Opqbox.Retrieval

variable {Buffer : Type}

/-- The lists and the time in nanoseconds at which each of them expires. -/
structure Server (Buffer : Type) where
  redis : Redis Buffer
  expires : String → Option Nat

/-- The server without the lists that expired up to now. -/
def Server.purge (now : Nat) (server : Server Buffer) : Server Buffer where
  redis := ⟨server.redis.lists.filter fun entry => (server.expires entry.1).all (now < ·),
    server.redis.distinct.sublist (List.filter_sublist.map _)⟩
  expires key := (server.expires key).filter (now < ·)

/-- A command as it is executed at a time: a push keeps the expiry of a list,
    and `EXPIRE` of a missing list does nothing. -/
def execute (now : Nat) (server : Server Buffer) : Command Buffer → Server Buffer
  | .LPUSH key message =>
    let server := server.purge now
    { server with redis := lpush server.redis key message }
  | .EXPIRE key seconds =>
    let server := server.purge now
    if key ∈ server.redis.keys then
      Server.purge now { server with
        expires := fun other => if other = key then some (now + (seconds * 1000000000).toNat) else server.expires other }
    else server

/-- The writer and the server, and the time of the last call. -/
structure System (Buffer : Type) where
  serializer : RedisSerializer Buffer
  server : Server Buffer
  now : Nat

/-- A call at the time of its first timestamp; its commands are executed at once. -/
def step (wire : Wire Buffer) (answers : Nat → Bool) (s : System Buffer) (m : OPQMeasurement) :
    Option (System Buffer) :=
  let now := m.timestamps.headD s.now
  if now < s.now then none
  else match sendToRedis wire answers s.serializer m with
    | none => none
    | some serializer =>
      some ⟨serializer,(serializer.c.appended.drop s.serializer.c.appended.length).foldl (execute now) s.server,now⟩

/-- A call at a time of its own; its commands are executed at once. -/
def stepAt (wire : Wire Buffer) (answers : Nat → Bool) (s : System Buffer) (call : Nat × OPQMeasurement) :
    Option (System Buffer) :=
  if call.1 < s.now then none
  else match sendToRedis wire answers s.serializer call.2 with
    | none => none
    | some serializer =>
      some ⟨serializer,(serializer.c.appended.drop s.serializer.c.appended.length).foldl (execute call.1) s.server,call.1⟩

theorem step_eq (wire : Wire Buffer) (answers : Nat → Bool) (s : System Buffer) (m : OPQMeasurement) :
    step wire answers s m = stepAt wire answers s (m.timestamps.headD s.now,m) := rfl

/-- A new serializer clears the database. -/
def System.start (boxId : BitVec 32) (ttl rotation : Int) : System Buffer :=
  ⟨.new boxId ttl rotation,⟨flushed,fun _ => none⟩,0⟩

/-- Every list that is present expires. -/
def Expiring (server : Server Buffer) : Prop := ∀ key ∈ server.redis.keys, (server.expires key).isSome

/-- A call opens a list, or goes on with one before it expires. -/
def InTime (s : System Buffer) (m : OPQMeasurement) : Prop :=
  ∀ first ∈ m.timestamps.head?, rotates s.serializer.redisRecordRotation s.serializer.lastRotation first = true ∨
    (s.serializer.key ≠ "" ∧ (first : Int) < s.serializer.lastRotation + s.serializer.redisRecordTTL * 1000000000)

/-! ### The server -/

theorem purge_keys {now : Nat} {server : Server Buffer} {key : String} :
    key ∈ (server.purge now).redis.keys ↔ key ∈ server.redis.keys ∧ (server.expires key).all (now < ·) = true := by
  rw [Redis.keys,Redis.keys,Server.purge]
  simp only [List.mem_map,List.mem_filter]
  constructor
  · rintro ⟨entry,⟨listed,fresh⟩,rfl⟩
    exact ⟨⟨entry,listed,rfl⟩,fresh⟩
  · rintro ⟨⟨entry,listed,rfl⟩,fresh⟩
    exact ⟨entry,⟨listed,fresh⟩,rfl⟩

theorem Expiring.purge {server : Server Buffer} (expiring : Expiring server) (now : Nat) :
    Expiring (server.purge now) := by
  intro key member
  obtain ⟨listed,fresh⟩ := purge_keys.mp member
  obtain ⟨deadline,is⟩ := Option.isSome_iff_exists.mp (expiring key listed)
  rw [is] at fresh
  have later : now < deadline := by simpa using fresh
  simp [Server.purge,is,later]

theorem lpush_keys {redis : Redis Buffer} {key other : String} {message : Buffer} :
    other ∈ (lpush redis key message).keys ↔ other ∈ redis.keys ∨ other = key := by
  rw [Redis.keys,lpush,push_keys,Redis.keys]
  split_ifs with listed
  · exact ⟨.inl,fun is => is.elim id fun same => same ▸ listed⟩
  · simp

/-- A push leaves all lists expiring exactly where the list it goes to has a deadline to come. -/
theorem expiring_lpush {now : Nat} {server : Server Buffer} (expiring : Expiring server) (key : String)
    (message : Buffer) :
    Expiring (execute now server (.LPUSH key message)) ↔
    ∃ deadline, server.expires key = some deadline ∧ now < deadline := by
  have purged := expiring.purge now
  have current : ((server.purge now).expires key).isSome ↔
      ∃ deadline, server.expires key = some deadline ∧ now < deadline := by
    rw [Option.isSome_iff_exists]
    simp [Server.purge,Option.filter_eq_some_iff]
  rw [← current]
  constructor
  · exact fun all => all key (lpush_keys.mpr (.inr rfl))
  · intro own other member
    rcases lpush_keys.mp member with before | rfl
    · exact purged other before
    · exact own

/-- No list is past its deadline. -/
def Fresh (now : Nat) (server : Server Buffer) : Prop := ∀ key, (server.expires key).all (now < ·) = true

theorem Fresh.purge {now : Nat} {server : Server Buffer} (fresh : Fresh now server) : server.purge now = server := by
  obtain ⟨⟨lists,distinct⟩,expires⟩ := server
  have listed : lists.filter (fun entry => (expires entry.1).all (now < ·)) = lists :=
    List.filter_eq_self.mpr fun entry _ => fresh entry.1
  have kept : (fun key => (expires key).filter (now < ·)) = expires := by
    funext key
    have later := fresh key
    cases is : expires key with
    | none => rfl
    | some deadline => simpa [is] using later
  simp only [Server.purge,listed,kept]

theorem fresh_purge (now : Nat) (server : Server Buffer) : Fresh now (server.purge now) := by
  intro key
  show ((server.expires key).filter (now < ·)).all (now < ·) = true
  cases server.expires key with
  | none => rfl
  | some deadline => simp

theorem fresh_lpush (now : Nat) (server : Server Buffer) (key : String) (message : Buffer) :
    Fresh now (execute now server (.LPUSH key message)) := fresh_purge now server

theorem execute_expire {now : Nat} {server : Server Buffer} (fresh : Fresh now server) {key : String}
    (present : key ∈ server.redis.keys)
    {seconds : Int} (positive : 1 ≤ seconds) : execute now server (.EXPIRE key seconds) =
      { server with
        expires := fun other =>
          if other = key then some (now + (seconds * 1000000000).toNat) else server.expires other } := by
  rw [execute]
  simp only [fresh.purge,present,if_true]
  apply Fresh.purge
  intro other
  by_cases is : other = key
  · simp [is]
    omega
  · simpa [is] using fresh other

/-- A list that is pushed on and given an expiry. -/
theorem execute_opened (now : Nat) (server : Server Buffer) (key : String) (message : Buffer) {ttl : Int}
    (positive : 1 ≤ ttl) :
    execute now (execute now server (.LPUSH key message)) (.EXPIRE key ttl) =
      { execute now server (.LPUSH key message) with
        expires := fun other =>
          if other = key then some (now + (ttl * 1000000000).toNat) else (server.purge now).expires other } := by
  exact execute_expire (fresh_lpush now server key message) (lpush_keys.mpr (.inr rfl)) positive

theorem expiring_opened {now : Nat} {server : Server Buffer} (expiring : Expiring server) (key : String)
    (message : Buffer) {ttl : Int}
    (positive : 1 ≤ ttl) : Expiring (execute now (execute now server (.LPUSH key message)) (.EXPIRE key ttl)) := by
  rw [execute_opened now server key message positive]
  intro other member
  by_cases is : other = key
  · simp [is]
  · have before := (lpush_keys.mp member).resolve_right is
    simpa [is] using expiring.purge now other before

/-! ### Runs -/

/-- All lists expire; the current key, once it is set, does so at its time to live
    after the last rotation. -/
structure Inv (ttl : Int) (s : System Buffer) : Prop where
  kept : s.serializer.redisRecordTTL = ttl
  expiring : Expiring s.server
  current : s.server.expires s.serializer.key =
    if s.serializer.key = "" then none else some (s.serializer.lastRotation + (ttl * 1000000000).toNat)

theorem inv_start (boxId : BitVec 32) (ttl rotation : Int) : Inv ttl (.start boxId ttl rotation : System Buffer) := by
  refine ⟨rfl,?_,rfl⟩
  intro key member
  cases member

/-- What a call does to the server. -/
theorem stepAt_cases {wire : Wire Buffer} {answers : Nat → Bool} {s t : System Buffer} {now : Nat} {m : OPQMeasurement}
    (taken : stepAt wire answers s (now,m) = some t) : s.now ≤ now ∧ t.now = now ∧
    ((m.timestamps = [] ∧ t.serializer = s.serializer ∧ t.server = s.server) ∨
    ∃ first rest, m.timestamps = first :: rest ∧
      ((rotates s.serializer.redisRecordRotation s.serializer.lastRotation first = true ∧
        t.serializer.key = (crono_to_mili first).repr ∧ t.serializer.lastRotation = first ∧
        t.serializer.redisRecordTTL = s.serializer.redisRecordTTL ∧
        t.serializer.redisRecordRotation = s.serializer.redisRecordRotation ∧
        t.server =
        execute now (execute now s.server (.LPUSH t.serializer.key (messageOf wire s.serializer.boxId m)))
          (.EXPIRE t.serializer.key s.serializer.redisRecordTTL)) ∨
      (rotates s.serializer.redisRecordRotation s.serializer.lastRotation first = false ∧
        t.serializer.key = s.serializer.key ∧ t.serializer.lastRotation = s.serializer.lastRotation ∧
        t.serializer.redisRecordTTL = s.serializer.redisRecordTTL ∧
        t.serializer.redisRecordRotation = s.serializer.redisRecordRotation ∧
        t.server = execute now s.server (.LPUSH s.serializer.key (messageOf wire s.serializer.boxId m))))) := by
  obtain ⟨upTo,stepped⟩ := Option.ite_none_left_eq_some.mp taken
  refine ⟨Nat.not_lt.mp upTo,?_⟩
  cases sent : sendToRedis wire answers s.serializer m with
  | none => simp [sent] at stepped
  | some serializer =>
    simp only [sent,Option.some.injEq] at stepped
    refine ⟨by rw [← stepped],?_⟩
    cases stamps : m.timestamps with
    | nil =>
      have same : serializer = s.serializer := by
        unfold sendToRedis at sent
        split at sent
        · cases sent
        · simpa [stamps,eq_comm] using sent
      exact .inl ⟨rfl,by simp [← stepped,same]⟩
    | cons first rest =>
      refine .inr ⟨first,rest,rfl,?_⟩
      rcases sendToRedis_cases stamps sent with ⟨opens,rfl⟩ | ⟨stays,rfl⟩
      · exact .inl ⟨opens,by simp [← stepped]⟩
      · exact .inr ⟨stays,by simp [← stepped]⟩

theorem step_cases {wire : Wire Buffer} {answers : Nat → Bool} {s t : System Buffer} {m : OPQMeasurement}
    (taken : step wire answers s m = some t) :
    (m.timestamps = [] ∧ t = s) ∨
    ∃ first rest, m.timestamps = first :: rest ∧ s.now ≤ first ∧ t.now = first ∧
      ((rotates s.serializer.redisRecordRotation s.serializer.lastRotation first = true ∧
        t.serializer.key = (crono_to_mili first).repr ∧ t.serializer.lastRotation = first ∧
        t.serializer.redisRecordTTL = s.serializer.redisRecordTTL ∧
        t.serializer.redisRecordRotation = s.serializer.redisRecordRotation ∧
        t.server =
        execute first (execute first s.server (.LPUSH t.serializer.key (messageOf wire s.serializer.boxId m)))
          (.EXPIRE t.serializer.key s.serializer.redisRecordTTL)) ∨
      (rotates s.serializer.redisRecordRotation s.serializer.lastRotation first = false ∧
        t.serializer.key = s.serializer.key ∧ t.serializer.lastRotation = s.serializer.lastRotation ∧
        t.serializer.redisRecordTTL = s.serializer.redisRecordTTL ∧
        t.serializer.redisRecordRotation = s.serializer.redisRecordRotation ∧
        t.server = execute first s.server (.LPUSH s.serializer.key (messageOf wire s.serializer.boxId m)))) := by
  rw [step_eq] at taken
  obtain ⟨upTo,now,⟨stamps,serializer,server⟩ | ⟨first,rest,stamps,does⟩⟩ := stepAt_cases taken
  · refine .inl ⟨stamps,?_⟩
    rw [stamps,List.headD_nil] at now
    obtain ⟨_,_,_⟩ := t
    simp_all
  · rw [stamps,List.headD_cons] at upTo now does
    exact .inr ⟨first,rest,stamps,upTo,now,does⟩

theorem Inv.step {wire : Wire Buffer} {answers : Nat → Bool} {ttl : Int} (positive : 1 ≤ ttl) {s t : System Buffer}
    {m : OPQMeasurement} (inv : Inv ttl s) (taken : step wire answers s m = some t) (expiring : Expiring t.server) :
    Inv ttl t := by
  obtain ⟨kept,before,current⟩ := inv
  rcases step_cases taken with ⟨_,rfl⟩ | ⟨first,rest,_,_,_,⟨_,key,last,ttl_kept,_,server⟩ | ⟨_,key,last,ttl_kept,_,server⟩⟩
  · exact ⟨kept,before,current⟩
  · refine ⟨ttl_kept.trans kept,expiring,?_⟩
    rw [server,kept,execute_opened _ _ _ _ positive,if_neg (key ▸ Nat.repr_ne_empty),last]
    simp
  · refine ⟨ttl_kept.trans kept,expiring,?_⟩
    rw [server] at expiring
    obtain ⟨deadline,is,later⟩ := (expiring_lpush before _ _).mp expiring
    rw [server,key,last,← current]
    show (s.server.expires s.serializer.key).filter (first < ·) = _
    simpa [is] using later

/-- A call leaves all lists expiring exactly where it is in time. -/
theorem Inv.expiring_iff {wire : Wire Buffer} {answers : Nat → Bool} {ttl : Int} (positive : 1 ≤ ttl)
    {s t : System Buffer}
    {m : OPQMeasurement} (inv : Inv ttl s) (taken : Expiry.step wire answers s m = some t) :
    Expiring t.server ↔ InTime s m := by
  obtain ⟨kept,before,current⟩ := inv
  rcases step_cases taken with ⟨none,rfl⟩ | ⟨first,rest,stamps,_,_,⟨opens,_,_,_,_,server⟩ | ⟨stays,_,_,_,_,server⟩⟩
  · simp [InTime,none,before]
  · simp only [InTime,stamps,List.head?_cons,Option.mem_some_iff,forall_eq',opens,true_or,iff_true]
    rw [server,kept]
    exact expiring_opened before _ _ positive
  · simp only [InTime,stamps,List.head?_cons,Option.mem_some_iff,forall_eq',stays,Bool.false_eq_true,false_or]
    rw [server,expiring_lpush before,current,kept]
    by_cases unset : s.serializer.key = ""
    · simp [unset]
    · simp only [unset,if_false,Option.some.injEq,exists_eq_left',ne_eq,not_false_eq_true,true_and]
      omega

/-- Late enough after the epoch for the first rotation. -/
def Late (rotation : Int) (m : OPQMeasurement) : Prop :=
  ∀ first ∈ m.timestamps.head?, (rotation + 1) * 1000000000 ≤ (first : Int)

/-- The rotation is configured, and nothing is stored before the first one. -/
structure Rotating (ttl rotation : Int) (s : System Buffer) : Prop where
  ttl_kept : s.serializer.redisRecordTTL = ttl
  kept : s.serializer.redisRecordRotation = rotation
  unset : s.serializer.key = "" → s.serializer.lastRotation = 0

theorem Rotating.step {wire : Wire Buffer} {answers : Nat → Bool} {ttl rotation : Int} {s t : System Buffer}
    {m : OPQMeasurement}
    (rotating : Rotating ttl rotation s) (taken : step wire answers s m = some t) : Rotating ttl rotation t := by
  obtain ⟨ttl_kept,kept,unset⟩ := rotating
  rcases step_cases taken with ⟨_,rfl⟩ | ⟨_,_,_,_,_,⟨_,key,last,ttl_same,same,_⟩ | ⟨_,key,last,ttl_same,same,_⟩⟩
  · exact ⟨ttl_kept,kept,unset⟩
  · exact ⟨ttl_same.trans ttl_kept,same.trans kept,fun empty => absurd (key.symm.trans empty) Nat.repr_ne_empty⟩
  · exact ⟨ttl_same.trans ttl_kept,same.trans kept,fun empty => last.trans (unset (key.symm.trans empty))⟩

/-- A list that lives for longer than the rotation is left before it expires. -/
theorem Rotating.inTime {ttl rotation : Int} (nonneg : 0 ≤ rotation) (longer : rotation < ttl) {s : System Buffer}
    {m : OPQMeasurement} (rotating : Rotating ttl rotation s) (late : Late rotation m) : InTime s m := by
  obtain ⟨ttl_kept,kept,unset⟩ := rotating
  intro first stamp
  have since := late first stamp
  rw [ttl_kept,kept]
  by_cases opens : rotates rotation s.serializer.lastRotation first = true
  · exact .inl opens
  · have early := (rotates_iff nonneg).not.mp opens
    refine .inr ⟨?_,by omega⟩
    intro empty
    rw [unset empty] at early
    omega

/-- After every call all lists expire, exactly where every call opens a list or
    goes on with one before it expires. -/
theorem along_expiring_iff {wire : Wire Buffer} {answers : Nat → Bool} {boxId : BitVec 32} {ttl rotation : Int}
    (positive : 1 ≤ ttl) (ms : List OPQMeasurement) :
    Along (step wire answers) (fun _ _ t => Expiring t.server) (.start boxId ttl rotation) ms ↔
      Along (step wire answers) (fun s m _ => InTime s m) (.start boxId ttl rotation) ms :=
  along_iff (Inv ttl) (fun _ _ _ inv taken expiring => inv.step positive taken expiring)
    (fun _ _ _ inv taken => inv.expiring_iff positive taken) (inv_start boxId ttl rotation)

/-- A push after ten seconds on a list that lives for 100. -/
theorem along_expiring_iff_long : Along (step .plain fun _ => true) (fun _ _ t => Expiring t.server) (.start 2 100 10)
    [measurementAt 100000000000,measurementAt 110000000000] := by
  refine (along_expiring_iff (by decide) _).mpr ?_
  intro t taken
  cases taken
  refine ⟨?_,?_⟩
  · intro first stamp
    cases stamp
    exact .inl rfl
  intro u taken
  cases taken
  refine ⟨?_,trivial⟩
  intro first stamp
  cases stamp
  exact .inr ⟨Nat.repr_ne_empty,by decide⟩

/-- Calls at 100 and 107 seconds, where lists live for five seconds and are
    rotated after ten: the second creates the list again, without an expiry. -/
theorem push_after_expiry : ∃ s, run (step .plain fun _ => true) (.start 2 5 10)
      [measurementAt 100000000000,measurementAt 107000000000] = some s ∧
    s.server.redis.keys = [Nat.repr 100000] ∧ s.server.expires (Nat.repr 100000) = none ∧
    ¬ Along (step .plain fun _ => true) (fun _ _ t => Expiring t.server) (.start 2 5 10)
      [measurementAt 100000000000,measurementAt 107000000000] := by
  refine ⟨_,rfl,rfl,rfl,?_⟩
  intro along
  have second := ((along _ rfl).2 _ rfl).1 (Nat.repr 100000) (List.mem_singleton_self _)
  exact absurd second (by decide)

/-- Where lists live for longer than the rotation, all of them expire. -/
theorem along_expiring_of_lt {wire : Wire Buffer} {answers : Nat → Bool} {boxId : BitVec 32} {ttl rotation : Int}
    (nonneg : 0 ≤ rotation)
    (longer : rotation < ttl) {ms : List OPQMeasurement} (late : ∀ m ∈ ms, Late rotation m) :
    Along (step wire answers) (fun s m t => InTime s m ∧ Expiring t.server) (.start boxId ttl rotation) ms := by
  have positive : 1 ≤ ttl := by omega
  refine along_of_along (P := fun _ m _ => Late rotation m)
    (fun s => Inv ttl s ∧ Rotating ttl rotation s) ?_ ?_ ⟨inv_start boxId ttl rotation,⟨rfl,rfl,fun _ => rfl⟩⟩
    (along_of_forall (fun m listed _ _ => late m listed) _)
  · rintro s m t ⟨inv,rotating⟩ taken since
    have expiring := (inv.expiring_iff positive taken).mpr (rotating.inTime nonneg longer since)
    exact ⟨inv.step positive taken expiring,rotating.step taken⟩
  · rintro s m t ⟨inv,rotating⟩ taken since
    have inTime := rotating.inTime nonneg longer since
    exact ⟨inTime,(inv.expiring_iff positive taken).mpr inTime⟩

end Opqbox.Expiry
