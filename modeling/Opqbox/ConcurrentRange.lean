import Mathlib.Data.List.Infix
import Mathlib.Data.List.Perm.Subperm
import Opqbox.RoundTrip

/-!
`RedisScraper.getRange` while other clients go on. It asks for the keys once and
then for one list after another, and between two requests any commands are
executed and lists expire. What it returns lies between what it would have
returned at once and all that was there or came meanwhile (`interleaved`).
-/
namespace Opqbox.ConcurrentRange
open Opqbox.Messages Opqbox.Runs Opqbox.Scraper Opqbox.RedisWriter Opqbox.Retrieval Opqbox.Expiry Opqbox.Retention
open Opqbox.RoundTrip

variable {Buffer : Type}

/-- Positions in `getRange`: before each of its requests, and after the last. -/
inductive Reading where
  | keys | lists (readout_keys : List Int) (message : DataMessage)
  | returned (message : DataMessage) | raised (e : PyError)

structure System (Buffer : Type) where
  server : Server Buffer
  /-- In nanoseconds. -/
  now : Nat
  reader : Reading
  /-- The messages that were pushed so far, each with its key. -/
  pushed : List (String × Buffer)

/-- `getRange` is called. -/
def System.start (server : Server Buffer) (now : Nat) : System Buffer := ⟨server,now,.keys,[]⟩

/-- A command of a client, or the next request of `getRange`, at a time. -/
inductive Action (Buffer : Type) where
  | command (now : Nat) (command : Command Buffer)
  | read (now : Nat)

/-- The next request, and what is done with its reply. -/
def read (wire : Wire Buffer) (low high : Int) (redis : Redis Buffer) : Reading → Option Reading
  | .keys =>
    match redis.keys.mapM int with
    | .error e => some (.raised e)
    | .ok keys => some (.lists (readoutKeys low high (keys.insertionSort (· ≤ ·)) [] 0) .empty)
  | .lists [] message => some (.returned message)
  | .lists (key :: keys) message =>
    match readBuffers wire low high (redis.lrange key) message with
    | .error e => some (.raised e)
    | .ok message => some (.lists keys message)
  | _ => none

def step (wire : Wire Buffer) (low high : Int) (s : System Buffer) : Action Buffer → Option (System Buffer)
  | .command now command =>
    if now < s.now then none
    else some { s with
      server := Expiry.execute now s.server command
      now := now
      pushed :=
        match command with
        | .LPUSH key message => s.pushed ++ [(key,message)]
        | .EXPIRE _ _ => s.pushed }
  | .read now =>
    if now < s.now then none
    else (read wire low high (s.server.purge now).redis s.reader).map fun reader =>
      { s with server := s.server.purge now, now := now, reader := reader }

/-! ### One request after the other -/

theorem readBuffers_inv {wire : Wire Buffer} {low high : Int} {buffers : List Buffer} {message after : DataMessage}
    (read : readBuffers wire low high buffers message = .ok after) :
    after = { message with cycles := message.cycles ++ (cycles wire buffers).filter (inWindow low high) } := by
  induction buffers generalizing message with
  | nil =>
    cases read
    simp [cycles]
  | cons b buffers ih =>
    rw [readBuffers] at read
    cases parsed : wire.parseData b with
    | none => simp [parsed] at read
    | some data =>
      simp only [parsed] at read
      rw [ih read]
      simp [cycles,parsed]

/-- What `getRange` returns, list by list. -/
theorem readLists_inv {wire : Wire Buffer} {redis : Redis Buffer} {low high : Int} {keys : List Int}
    {message after : DataMessage} (read : readLists wire redis low high keys message = .ok after) :
    after = { message with cycles := message.cycles ++ keys.flatMap (inRange wire redis low high) } := by
  induction keys generalizing message with
  | nil =>
    cases read
    simp
  | cons key keys ih =>
    rw [readLists] at read
    cases first : readBuffers wire low high (redis.lrange key) message with
    | error e =>
      rw [first] at read
      cases read
    | ok between =>
      rw [first] at read
      rw [ih read,readBuffers_inv first]
      simp [inRange]

theorem run_reads {wire : Wire Buffer} {low high : Int} {server : Server Buffer} {now : Nat} {keys : List Int}
    {before after : DataMessage} (reads : readLists wire server.redis low high keys before = .ok after)
    (purged : server.purge now = server) (pushed : List (String × Buffer)) :
    run (step wire low high) ⟨server,now,.lists keys before,pushed⟩ (List.replicate (keys.length + 1) (.read now)) =
      some ⟨server,now,.returned after,pushed⟩ := by
  induction keys generalizing before with
  | nil =>
    cases reads
    simp [run,step,read,purged]
  | cons key keys ih =>
    rw [readLists] at reads
    cases first : readBuffers wire low high (server.redis.lrange key) before with
    | error e =>
      rw [first] at reads
      cases reads
    | ok between =>
      rw [first] at reads
      have taken : step wire low high ⟨server,now,.lists (key :: keys) before,pushed⟩ (.read now) =
          some ⟨server,now,.lists keys between,pushed⟩ := by simp [step,read,purged,first]
      rw [List.length_cons,List.replicate_succ,run_cons taken]
      exact ih reads

/-- Without other commands in between the requests are `getRange`. -/
theorem uninterrupted {wire : Wire Buffer} {low high : Int} {server : Server Buffer} {now : Nat} {message : DataMessage}
    (returns : getRange wire (server.purge now).redis low high = .ok message) :
    ∃ requests t, run (step wire low high) (.start server now) (List.replicate requests (.read now)) = some t ∧
      t.reader = .returned message := by
  rw [getRange] at returns
  cases keys : (server.purge now).redis.keys.mapM int with
  | error e =>
    rw [keys] at returns
    cases returns
  | ok numbers =>
    rw [keys] at returns
    have purged : (server.purge now).purge now = server.purge now := (fresh_purge now server).purge
    have taken : step wire low high (.start server now) (.read now) =
        some ⟨server.purge now,now,.lists (readoutKeys low high (numbers.insertionSort (· ≤ ·)) [] 0) .empty,[]⟩ := by
      simp [step,System.start,read,keys]
    have rest := run_reads returns purged []
    exact ⟨_ + 1,_,(run_cons taken _).trans rest,rfl⟩

/-! ### What a command leaves of a list -/

def listAt (redis : Redis Buffer) (key : String) : List Buffer := (redis.lists.lookup key).getD []

theorem listAt_purge (server : Server Buffer) (now : Nat) (key : String) : listAt (server.purge now).redis key =
    if (server.expires key).all (now < ·) then listAt server.redis key else [] := by
  rw [listAt,lookup_purge]
  split_ifs <;> rfl

theorem listAt_lpush (redis : Redis Buffer) (key other : String) (message : Buffer) :
    listAt (lpush redis key message) other = if other = key then message :: listAt redis other else listAt redis other := by
  rw [listAt,lpush,lookup_push]
  split_ifs with same
  · rw [same]
    rfl
  · rfl

/-- What a command pushes on a list. -/
def pushOn (key : String) : Command Buffer → List Buffer
  | .LPUSH other message => if key = other then [message] else []
  | .EXPIRE _ _ => []

/-- A list is gone on with or loses messages. -/
theorem listAt_execute (now : Nat) (server : Server Buffer) (command : Command Buffer) (key : String) :
    (listAt (Expiry.execute now server command).redis key).Sublist (pushOn key command ++ listAt server.redis key) := by
  have purged (server : Server Buffer) : (listAt (server.purge now).redis key).Sublist (listAt server.redis key) := by
    rw [listAt_purge]
    split_ifs
    · exact List.Sublist.refl _
    · exact List.nil_sublist _
  cases command with
  | LPUSH other message =>
    show (listAt (lpush (server.purge now).redis other message) key).Sublist _
    rw [listAt_lpush,pushOn]
    split_ifs
    · exact (purged server).cons_cons message
    · exact purged server
  | EXPIRE other seconds =>
    rw [Expiry.execute]
    split_ifs
    · exact (purged _).trans (purged server)
    · exact purged server

/-- The list of a key that lasts is only gone on with. -/
theorem listAt_execute_lasting {now : Nat} {server : Server Buffer} {command : Command Buffer} {key : String}
    (fresh : (server.expires key).all (now < ·) = true) (present : key ∈ (Expiry.execute now server command).redis.keys) :
    listAt server.redis key <:+ listAt (Expiry.execute now server command).redis key := by
  have purged : listAt (server.purge now).redis key = listAt server.redis key := by rw [listAt_purge,if_pos fresh]
  cases command with
  | LPUSH other message =>
    show _ <:+ listAt (lpush (server.purge now).redis other message) key
    rw [listAt_lpush,purged]
    split_ifs
    · exact List.suffix_cons ..
    · exact List.suffix_rfl
  | EXPIRE other seconds =>
    rw [Expiry.execute] at present ⊢
    split_ifs at present ⊢
    · obtain ⟨_,fresh'⟩ := purge_keys.mp present
      rw [listAt_purge,if_pos fresh']
      exact purged ▸ List.suffix_rfl
    · rw [purged]

/-! ### What `getRange` has at any time -/

/-- What is pushed under a key, the newest first. -/
def came (pushed : List (String × Buffer)) (key : String) : List Buffer :=
  ((pushed.filter fun e => e.1 = key).map Prod.snd).reverse

theorem came_concat (pushed : List (String × Buffer)) (key : String) (e : String × Buffer) :
    came (pushed ++ [e]) key = (if key = e.1 then [e.2] else []) ++ came pushed key := by
  by_cases same : key = e.1
  · simp [came,same]
  · simp [came,same,Ne.symm same]

/-- The cycles of the window that were in the list at first or were pushed on it since. -/
def inList (wire : Wire Buffer) (low high : Int) (snapshot : Redis Buffer) (pushed : List (String × Buffer)) (key : Int) :
    List Cycle :=
  (cycles wire (came pushed key.repr ++ listAt snapshot key.repr)).filter (inWindow low high)

/-- Where the reader stands: the lists `read` of all that it reads are read, and
    the cycles are those of `message`. -/
def Stands (readout : List Int) (reader : Reading) (read : List Int) (cycles : List Cycle) : Prop :=
  (∃ keys message, reader = .lists keys message ∧ readout = read ++ keys ∧ message.cycles = cycles) ∨
    (∃ message, reader = .returned message ∧ readout = read ∧ message.cycles = cycles) ∨ ∃ e, reader = .raised e

/-- Nothing but what was there at first and came since is in the lists, and so in
    what was read of them. -/
structure Sound (wire : Wire Buffer) (low high : Int) (snapshot : Redis Buffer) (readout : List Int)
    (s : System Buffer) : Prop where
  lists : ∀ key, (listAt s.server.redis key).Sublist (came s.pushed key ++ listAt snapshot key)
  reader : ∃ read got, Stands readout s.reader read got ∧
    got.Sublist (read.flatMap (inList wire low high snapshot s.pushed))

/-- What was there at first is still in its lists, and so in what was read of them. -/
structure Complete (wire : Wire Buffer) (low high : Int) (snapshot : Redis Buffer) (readout : List Int)
    (s : System Buffer) : Prop where
  lists : ∀ key, listAt snapshot key <:+ listAt s.server.redis key
  reader : ∃ read got, Stands readout s.reader read got ∧
    (read.flatMap (inRange wire snapshot low high)).Sublist got

/-- A step does not let lists expire or be deleted. -/
def Lasting (keys : List String) (s : System Buffer) (_ : Action Buffer) (t : System Buffer) : Prop :=
  ∀ key ∈ keys, (s.server.expires key).all (t.now < ·) = true ∧ key ∈ t.server.redis.keys

theorem cycles_sublist (wire : Wire Buffer) {buffers more : List Buffer} (sub : buffers.Sublist more) :
    (cycles wire buffers).Sublist (cycles wire more) := sub.flatMap _

theorem step_command {wire : Wire Buffer} {low high : Int} {s t : System Buffer} {now : Nat} {command : Command Buffer}
    (taken : step wire low high s (.command now command) = some t) :
    t.now = now ∧ t.server = Expiry.execute now s.server command ∧ t.reader = s.reader ∧
      ∀ key, came t.pushed key = pushOn key command ++ came s.pushed key := by
  unfold step at taken
  simp only at taken
  split_ifs at taken
  cases taken
  refine ⟨rfl,rfl,rfl,?_⟩
  intro key
  cases command with
  | LPUSH other message => exact came_concat s.pushed key (other,message)
  | EXPIRE other seconds => rfl

theorem step_read {wire : Wire Buffer} {low high : Int} {s t : System Buffer} {now : Nat}
    (taken : step wire low high s (.read now) = some t) :
    t.now = now ∧ t.server = s.server.purge now ∧ t.pushed = s.pushed ∧
      read wire low high (s.server.purge now).redis s.reader = some t.reader := by
  unfold step at taken
  simp only at taken
  split_ifs at taken
  obtain ⟨reader,reads,rfl⟩ := Option.map_eq_some_iff.mp taken
  exact ⟨rfl,rfl,rfl,reads⟩

/-- A request in the loop reads the next list, or is the last. -/
theorem Stands.next {wire : Wire Buffer} {low high : Int} {redis : Redis Buffer} {readout : List Int}
    {reader after : Reading} {done : List Int} {got : List Cycle} (stands : Stands readout reader done got)
    (reads : read wire low high redis reader = some after) :
    Stands readout after done got ∨ ∃ key, Stands readout after (done ++ [key]) (got ++ inRange wire redis low high key) := by
  rcases stands with ⟨keys,message,rfl,whole,rfl⟩ | ⟨message,rfl,_⟩ | ⟨e,rfl⟩
  · cases keys with
    | nil =>
      cases reads
      exact .inl (.inr (.inl ⟨message,rfl,by simpa using whole,rfl⟩))
    | cons key keys =>
      refine .inr ⟨key,?_⟩
      simp only [read] at reads
      cases listed : readBuffers wire low high (redis.lrange key) message with
      | error e =>
        simp only [listed,Option.some.injEq] at reads
        exact .inr (.inr ⟨e,reads.symm⟩)
      | ok next =>
        simp only [listed,Option.some.injEq] at reads
        refine .inl ⟨keys,next,reads.symm,by simp [whole],?_⟩
        rw [readBuffers_inv listed]
        rfl
  · cases reads
  · cases reads

theorem Sound.step {wire : Wire Buffer} {low high : Int} {snapshot : Redis Buffer} {readout : List Int}
    {s t : System Buffer} {a : Action Buffer} (sound : Sound wire low high snapshot readout s)
    (taken : ConcurrentRange.step wire low high s a = some t) : Sound wire low high snapshot readout t := by
  obtain ⟨done,got,stands,within⟩ := sound.reader
  cases a with
  | command now command =>
    obtain ⟨_,server,reader,came⟩ := step_command taken
    refine ⟨?_,done,got,reader ▸ stands,within.trans ?_⟩
    · intro key
      rw [server,came,List.append_assoc]
      exact (listAt_execute now s.server command key).trans ((sound.lists key).append_left _)
    · refine List.Sublist.flatMap_right done ?_
      intro key _
      rw [inList,inList,came,List.append_assoc]
      exact (cycles_sublist wire (List.sublist_append_right ..)).filter _
  | read now =>
    obtain ⟨_,server,pushed,reads⟩ := step_read taken
    have lists (key : String) : (listAt (s.server.purge now).redis key).Sublist (came s.pushed key ++ listAt snapshot key) := by
      rw [listAt_purge]
      split_ifs
      · exact sound.lists key
      · exact List.nil_sublist _
    refine ⟨fun key => by rw [server,pushed]; exact lists key,?_⟩
    rw [pushed]
    rcases stands.next reads with same | ⟨key,next⟩
    · exact ⟨done,got,same,within⟩
    · refine ⟨_,_,next,?_⟩
      rw [List.flatMap_append,List.flatMap_singleton]
      exact within.append ((cycles_sublist wire (lists key.repr)).filter _)

theorem Complete.step {wire : Wire Buffer} {low high : Int} {snapshot : Redis Buffer} {readout : List Int}
    {s t : System Buffer} {a : Action Buffer} (complete : Complete wire low high snapshot readout s)
    (taken : ConcurrentRange.step wire low high s a = some t) (lasting : Lasting snapshot.keys s a t) :
    Complete wire low high snapshot readout t := by
  obtain ⟨done,got,stands,within⟩ := complete.reader
  -- What is not in a list cannot be lost.
  have lost {server : Server Buffer} (kept : ∀ key ∈ snapshot.keys,
      listAt s.server.redis key <:+ listAt server.redis key) (key : String) :
      listAt snapshot key <:+ listAt server.redis key := by
    by_cases listed : key ∈ snapshot.keys
    · exact (complete.lists key).trans (kept key listed)
    · have missing : snapshot.lists.lookup key = none := by
        refine List.lookup_eq_none_iff.mpr ?_
        intro entry member
        refine bne_iff_ne.mpr ?_
        rintro rfl
        exact listed (List.mem_map_of_mem member)
      rw [listAt,missing]
      exact List.nil_suffix
  cases a with
  | command now command =>
    obtain ⟨time,server,reader,_⟩ := step_command taken
    refine ⟨?_,done,got,reader ▸ stands,within⟩
    rw [server]
    refine lost fun key listed => ?_
    obtain ⟨fresh,present⟩ := lasting key listed
    rw [time] at fresh
    rw [server] at present
    exact listAt_execute_lasting fresh present
  | read now =>
    obtain ⟨time,server,_,reads⟩ := step_read taken
    have lists : ∀ key, listAt snapshot key <:+ listAt (s.server.purge now).redis key := by
      refine lost fun key listed => ?_
      have fresh := (lasting key listed).1
      rw [time] at fresh
      rw [listAt_purge,if_pos fresh]
    refine ⟨server ▸ lists,?_⟩
    rcases stands.next reads with same | ⟨key,next⟩
    · exact ⟨done,got,same,within⟩
    · refine ⟨_,_,next,?_⟩
      rw [List.flatMap_append,List.flatMap_singleton]
      exact within.append ((cycles_sublist wire (lists key.repr).sublist).filter _)

/-! ### What `getRange` returns -/

/-- What came under different names is no more than all that came. -/
theorem came_subperm (wire : Wire Buffer) (pushed : List (String × Buffer)) {names : List String} (distinct : names.Nodup) :
    (names.flatMap fun key => cycles wire (came pushed key)).Subperm (cycles wire (pushed.map Prod.snd)) := by
  have listed : ∀ e ∈ pushed.filter fun e => e.1 ∈ names, e.1 ∈ names := by
    intro e member
    simpa using (List.mem_filter.mp member).2
  have each (key : String) (name : key ∈ names) : (cycles wire (came pushed key)).Perm
      (((pushed.filter fun e => e.1 ∈ names).filter fun e => e.1 = key).flatMap fun e => cycles wire [e.2]) := by
    have same : ((pushed.filter fun e => e.1 ∈ names).filter fun e => e.1 = key) = pushed.filter fun e => e.1 = key := by
      rw [List.filter_filter]
      refine List.filter_congr ?_
      intro e _
      by_cases is : e.1 = key
      · simp [is,name]
      · simp [is]
    have parsed : cycles wire ((pushed.filter fun e => e.1 = key).map Prod.snd) =
        (pushed.filter fun e => e.1 = key).flatMap fun e => cycles wire [e.2] := by
      rw [cycles,List.flatMap_map]
      simp [cycles]
    rw [same,← parsed]
    exact (List.reverse_perm _).flatMap_right _
  have within : ((pushed.filter fun e => e.1 ∈ names).flatMap fun e => cycles wire [e.2]).Sublist
      (cycles wire (pushed.map Prod.snd)) := by
    have all : cycles wire (pushed.map Prod.snd) = pushed.flatMap fun e => cycles wire [e.2] := by
      rw [cycles,List.flatMap_map]
      simp [cycles]
    rw [all]
    exact List.filter_sublist.flatMap _
  refine ((List.Perm.flatMap_left names each).trans ?_).subperm.trans within.subperm
  rw [← List.flatMap_assoc]
  exact (flatMap_filter_perm Prod.fst distinct listed).flatMap_right _

/-- Whatever is executed between its requests, `getRange` returns only cycles of
    the window, list by list of those that it reads and none more often than it
    was in the list at the first request or came since; and where no list expires
    in the meantime, all that it would have returned at once, in the same order. -/
theorem interleaved {wire : Wire Buffer} {low high : Int} {server : Server Buffer} {now : Nat} {numbers : List Int}
    (keys : (server.purge now).redis.keys.mapM int = .ok numbers) (distinct : numbers.Nodup) (positive : ∀ k ∈ numbers, 0 < k)
    {as : List (Action Buffer)} {t : System Buffer} {message : DataMessage}
    (ran : run (step wire low high) (.start server now) (.read now :: as) = some t) (returned : t.reader = .returned message) :
    (∀ x ∈ message.cycles, low < x.time ∧ x.time < high) ∧
    message.cycles.Sublist ((readoutKeys low high (numbers.insertionSort (· ≤ ·)) [] 0).flatMap
      (inList wire low high (server.purge now).redis t.pushed)) ∧
    message.cycles.Subperm (stored wire (server.purge now).redis ++ cycles wire (t.pushed.map Prod.snd)) ∧
    (Along (step wire low high) (Lasting (server.purge now).redis.keys) (.start server now) (.read now :: as) →
      ∀ alone, getRange wire (server.purge now).redis low high = .ok alone → alone.cycles.Sublist message.cycles) := by
  obtain ⟨u,first,rest⟩ := run_cons_inv ran
  have opened : u = ⟨server.purge now,now,.lists (readoutKeys low high (numbers.insertionSort (· ≤ ·)) [] 0) .empty,[]⟩ := by
    simp only [step,System.start,read,keys,Nat.lt_irrefl,if_false,Option.map_some,Option.some.injEq] at first
    exact first.symm
  subst opened
  generalize readout_is : readoutKeys low high (numbers.insertionSort (· ≤ ·)) [] 0 = readout at first rest
  have names : (readout.map Int.repr).Nodup := by
    have ascending := readoutKeys_ascending low high (insertionSort_ascending distinct) fun k member =>
      positive k ((List.perm_insertionSort _ _).mem_iff.mp member)
    rw [readout_is] at ascending
    exact List.Nodup.map repr_injective (ascending.imp Int.ne_of_lt)
  have whole {done : List Int} {got : List Cycle} (stands : Stands readout t.reader done got) :
      done = readout ∧ message.cycles = got := by
    rw [returned] at stands
    rcases stands with ⟨_,_,other,_⟩ | ⟨_,same,all,are⟩ | ⟨_,other⟩
    · cases other
    · cases same
      exact ⟨all.symm,are⟩
    · cases other
  have sound : Sound wire low high (server.purge now).redis readout t := by
    refine run_invariant (fun s a t sound taken => sound.step taken) ?_ rest
    exact ⟨fun key => List.Sublist.refl _,[],[],.inl ⟨readout,.empty,rfl,rfl,rfl⟩,List.Sublist.refl _⟩
  obtain ⟨done,got,stands,within⟩ := sound.reader
  obtain ⟨rfl,rfl⟩ := whole stands
  refine ⟨?_,within,?_,?_⟩
  · intro x member
    obtain ⟨key,_,among⟩ := List.mem_flatMap.mp (within.subset member)
    simpa [inWindow] using (List.mem_filter.mp among).2
  · refine within.subperm.trans ?_
    have parts : done.flatMap (inList wire low high (server.purge now).redis t.pushed) =
        (done.map Int.repr).flatMap fun key => (cycles wire (came t.pushed key)).filter (inWindow low high) ++
          (cycles wire (listAt (server.purge now).redis key)).filter (inWindow low high) := by
      rw [List.flatMap_map]
      refine List.flatMap_congr ?_
      intro key _
      simp [inList,cycles]
    rw [parts]
    refine (List.flatMap_append_perm _ _ _).symm.subperm.trans (List.perm_append_comm.subperm.trans ?_)
    refine List.Subperm.append (names_subperm wire _ low high names) ?_
    refine List.Subperm.trans ?_ (came_subperm wire t.pushed names)
    exact (List.Sublist.flatMap_right _ fun key _ => List.filter_sublist).subperm
  · intro lasting alone returns
    have complete : Complete wire low high (server.purge now).redis done t := by
      refine run_invariant_along (Complete wire low high (server.purge now).redis done)
        (fun s a t complete taken last => complete.step taken last) ?_ (lasting _ first).2 rest
      exact ⟨fun key => List.suffix_rfl,[],[],.inl ⟨done,.empty,rfl,rfl,rfl⟩,List.Sublist.refl _⟩
    obtain ⟨done',got',stands',among⟩ := complete.reader
    obtain ⟨rfl,rfl⟩ := whole stands'
    rw [getRange,keys] at returns
    have all := readLists_inv (show readLists wire (server.purge now).redis low high
      (readoutKeys low high (numbers.insertionSort (· ≤ ·)) [] 0) .empty = .ok alone from returns)
    rw [all,readout_is]
    simpa [DataMessage.empty] using among

/-- A message with a cycle at 160, pushed on the list of `oneBatch` after the keys are read. -/
def pushMeanwhile : List (Action (DataMessage ⊕ RequestDataMessage)) :=
  [.command 1 (.LPUSH (Nat.repr 100) (.inl ⟨some 1,none,[cycleAt 160]⟩)),.read 2,.read 3,.read 4]

theorem interleaved_push : ∃ t message,
    run (step .plain 90 200) (.start ⟨oneBatch,fun _ => none⟩ 0) (.read 0 :: pushMeanwhile) = some t ∧
    t.reader = .returned message ∧ message.cycles = [cycleAt 160,cycleAt 150] ∧
    (∀ x ∈ message.cycles, 90 < (x.time : Int) ∧ (x.time : Int) < 200) ∧
    message.cycles.Sublist ((readoutKeys 90 200 (([100] : List Int).insertionSort (· ≤ ·)) [] 0).flatMap
      (inList .plain 90 200 ((⟨oneBatch,fun _ => none⟩ : Server _).purge 0).redis t.pushed)) ∧
    message.cycles.Subperm (stored .plain ((⟨oneBatch,fun _ => none⟩ : Server _).purge 0).redis ++
      cycles .plain (t.pushed.map Prod.snd)) ∧
    (Along (step .plain 90 200) (Lasting ((⟨oneBatch,fun _ => none⟩ : Server _).purge 0).redis.keys)
        (.start ⟨oneBatch,fun _ => none⟩ 0) (.read 0 :: pushMeanwhile) →
      ∀ alone, getRange .plain ((⟨oneBatch,fun _ => none⟩ : Server _).purge 0).redis 90 200 = .ok alone →
        alone.cycles.Sublist message.cycles) := by
  have keys : ((⟨oneBatch,fun _ => none⟩ : Server _).purge 0).redis.keys.mapM int = .ok [100] := mapM_int [100]
  have first : step .plain 90 200 (.start ⟨oneBatch,fun _ => none⟩ 0) (.read 0) =
      some ⟨(⟨oneBatch,fun _ => none⟩ : Server _).purge 0,0,
        .lists (readoutKeys 90 200 (([100] : List Int).insertionSort (· ≤ ·)) [] 0) .empty,[]⟩ := by
    simp [step,System.start,read,keys]
  have ran := run_cons first pushMeanwhile
  refine ⟨_,_,ran.trans rfl,rfl,rfl,?_⟩
  exact interleaved keys (by decide) (by decide) (ran.trans rfl) rfl

end Opqbox.ConcurrentRange
