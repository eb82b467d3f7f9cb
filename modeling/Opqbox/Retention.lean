import Opqbox.Expiry
import Opqbox.RangeQuery

/-!
What is left in Redis of the measurements that were sent. The calls of the writer
have times of their own, up to a delay after the first timestamps. Where lists
live for longer than the rotation and the delay, the server holds at any later
time exactly the messages whose list was opened within the time to live
(`retained`), and nothing of it is older or younger than the two settings say.
-/
namespace Opqbox.Retention
open Opqbox.Messages Opqbox.OpqData Opqbox.Runs Opqbox.Scraper Opqbox.RedisWriter Opqbox.Retrieval Opqbox.Expiry

variable {Buffer : Type}

/-- The first timestamp of a measurement. -/
def firstOf (m : OPQMeasurement) : Nat := m.timestamps.headD 0

/-- Each measurement is sent at most `delay` nanoseconds after its first timestamp. -/
def Timely (delay : Nat) (calls : List (Nat × OPQMeasurement)) : Prop :=
  ∀ c ∈ calls, firstOf c.2 ≤ c.1 ∧ c.1 ≤ firstOf c.2 + delay

/-- When a list was opened: the timestamp that it is named by, and the time of the call. -/
structure Opening where
  first : Nat
  called : Nat

/-- The measurements, each with the opening of its list. -/
def historyFrom (rotation : Int) (opening : Opening) : List (Nat × OPQMeasurement) → List (Opening × OPQMeasurement)
  | [] => []
  | c :: calls =>
    let opening := if rotates rotation opening.first (firstOf c.2) then ⟨firstOf c.2,c.1⟩ else opening
    (opening,c.2) :: historyFrom rotation opening calls

def history (rotation : Int) (calls : List (Nat × OPQMeasurement)) : List (Opening × OPQMeasurement) :=
  historyFrom rotation ⟨0,0⟩ calls

/-- The measurements under the keys of their lists. -/
def byKey (h : List (Opening × OPQMeasurement)) : List (Nat × OPQMeasurement) := h.map fun e => (crono_to_mili e.1.first,e.2)

/-- Whether a list opened by a call at this time has not expired. -/
def alive (ttl : Int) (now called : Nat) : Bool := (now : Int) < called + ttl * 1000000000

/-- The measurements in lists that have not expired. -/
def live (ttl : Int) (now : Nat) (h : List (Opening × OPQMeasurement)) : List (Opening × OPQMeasurement) :=
  h.filter fun e => alive ttl now e.1.called

theorem mem_live {ttl : Int} {now : Nat} {h : List (Opening × OPQMeasurement)} {e : Opening × OPQMeasurement} :
    e ∈ live ttl now h ↔ e ∈ h ∧ (now : Int) < e.1.called + ttl * 1000000000 := by
  simp [live,alive]

theorem live_live {ttl : Int} {now later : Nat} (after : now ≤ later) (h : List (Opening × OPQMeasurement)) :
    live ttl later (live ttl now h) = live ttl later h := by
  rw [live,live,List.filter_filter]
  refine List.filter_congr ?_
  intro e _
  simp only [alive,Bool.and_eq_left_iff_imp,decide_eq_true_eq]
  omega

theorem historyFrom_keys (rotation : Int) (opening : Opening) (calls : List (Nat × OPQMeasurement)) :
    byKey (historyFrom rotation opening calls) =
      (keysFrom rotation opening.first (crono_to_mili opening.first) (calls.map Prod.snd)).zip (calls.map Prod.snd) := by
  induction calls generalizing opening with
  | nil => rfl
  | cons c calls ih =>
    rw [historyFrom,List.map_cons,keysFrom,show c.2.timestamps.headD 0 = firstOf c.2 from rfl]
    by_cases opens : rotates rotation opening.first (firstOf c.2) = true
    · simp only [opens,if_true]
      rw [List.zip_cons_cons,← ih ⟨firstOf c.2,c.1⟩]
      rfl
    · simp only [opens,Bool.false_eq_true,if_false]
      rw [List.zip_cons_cons,← ih opening]
      rfl

theorem byKey_history (rotation : Int) (calls : List (Nat × OPQMeasurement)) :
    byKey (history rotation calls) = (keysOf rotation (calls.map Prod.snd)).zip (calls.map Prod.snd) :=
  historyFrom_keys rotation ⟨0,0⟩ calls

/-! ### The server -/

theorem lookup_filter (keep : String → Bool) (lists : List (String × List Buffer)) (key : String) :
    (lists.filter fun entry => keep entry.1).lookup key = if keep key then lists.lookup key else none := by
  induction lists with
  | nil => simp
  | cons entry lists ih =>
    obtain ⟨name,messages⟩ := entry
    by_cases is : key = name
    · subst is
      by_cases kept : keep key = true
      · simp [kept]
      · simpa [kept] using ih
    · have differs : (key == name) = false := by simpa using is
      by_cases kept : keep name = true
      · simp only [List.filter_cons,kept,if_true,List.lookup_cons,differs]
        exact ih
      · simp only [List.filter_cons,kept,if_false,List.lookup_cons,differs,Bool.false_eq_true]
        exact ih

theorem lookup_purge (server : Server Buffer) (now : Nat) (key : String) : (server.purge now).redis.lists.lookup key =
    if (server.expires key).all (now < ·) then server.redis.lists.lookup key else none :=
  lookup_filter (fun key => (server.expires key).all (now < ·)) server.redis.lists key

theorem under_byKey (wire : Wire Buffer) (boxId : BitVec 32) (k : Nat) (h : List (Opening × OPQMeasurement)) :
    under wire boxId k (byKey h) = (h.filter fun e => crono_to_mili e.1.first = k).map fun e => messageOf wire boxId e.2 := by
  rw [under,byKey,List.filter_map,List.map_map]
  rfl

/-- The lists are those of the history that are alive, and each has its deadline. -/
structure Keeps (wire : Wire Buffer) (boxId : BitVec 32) (ttl : Int) (now : Nat) (h : List (Opening × OPQMeasurement))
    (server : Server Buffer) : Prop where
  holds : Holds wire boxId (byKey (live ttl now h)) server.redis
  deadline : ∀ e ∈ live ttl now h,
    server.expires (crono_to_mili e.1.first).repr = some (e.1.called + (ttl * 1000000000).toNat)

/-- Lists under one key were opened at one time. -/
def Apart (h : List (Opening × OPQMeasurement)) : Prop :=
  ∀ e ∈ h, ∀ e' ∈ h, crono_to_mili e.1.first = crono_to_mili e'.1.first → e.1 = e'.1

theorem Keeps.purge {wire : Wire Buffer} {boxId : BitVec 32} {ttl : Int} {now later : Nat} {h : List (Opening × OPQMeasurement)}
    {server : Server Buffer} (keeps : Keeps wire boxId ttl now h server) (positive : 1 ≤ ttl) (apart : Apart h)
    (after : now ≤ later) : Keeps wire boxId ttl later h (server.purge later) := by
  have deadline_iff (e : Opening × OPQMeasurement) :
      (some (e.1.called + (ttl * 1000000000).toNat)).all (later < ·) = true ↔ alive ttl later e.1.called = true := by
    simp only [Option.all_some,decide_eq_true_eq,alive]
    omega
  have still {e : Opening × OPQMeasurement} (member : e ∈ live ttl later h) : e ∈ live ttl now h := by
    rw [← live_live after] at member
    exact List.mem_of_mem_filter member
  refine ⟨⟨?_,?_⟩,?_⟩
  · intro key member
    obtain ⟨listed,fresh⟩ := purge_keys.mp member
    obtain ⟨_,among,rfl⟩ := keeps.holds.keys key listed
    obtain ⟨e,alive_now,rfl⟩ := List.mem_map.mp among
    rw [keeps.deadline e alive_now] at fresh
    refine ⟨_,List.mem_map_of_mem ?_,rfl⟩
    rw [← live_live after]
    exact List.mem_filter.mpr ⟨alive_now,(deadline_iff e).mp fresh⟩
  · intro k
    rw [lookup_purge,keeps.holds.lists,under_byKey,under_byKey]
    by_cases any : ∃ e ∈ live ttl now h, crono_to_mili e.1.first = k
    · obtain ⟨e,alive_now,rfl⟩ := any
      rw [keeps.deadline e alive_now]
      -- All lists under the key are this one.
      have same : ∀ e' ∈ live ttl now h, crono_to_mili e'.1.first = crono_to_mili e.1.first → e'.1 = e.1 := by
        intro e' member is
        exact apart e' (mem_live.mp member).1 e (mem_live.mp alive_now).1 is
      by_cases alive_later : alive ttl later e.1.called = true
      · have all_left : ((live ttl later h).filter fun e' => crono_to_mili e'.1.first = crono_to_mili e.1.first) =
            (live ttl now h).filter fun e' => crono_to_mili e'.1.first = crono_to_mili e.1.first := by
          rw [← live_live after,live.eq_def ttl later,List.filter_filter]
          refine List.filter_congr ?_
          intro e' member
          by_cases is : crono_to_mili e'.1.first = crono_to_mili e.1.first
          · simp [same e' member is,alive_later]
          · simp [is]
        rw [if_pos ((deadline_iff e).mpr alive_later),all_left]
      · have none_left : ((live ttl later h).filter fun e' => crono_to_mili e'.1.first = crono_to_mili e.1.first) = [] := by
          refine List.filter_eq_nil_iff.mpr ?_
          intro e' member is
          have alive' := (List.mem_filter.mp member).2
          rw [same e' (still member) (by simpa using is)] at alive'
          exact alive_later alive'
        rw [if_neg ((deadline_iff e).not.mpr alive_later),none_left]
        rfl
    · have none_now : ((live ttl now h).filter fun e => crono_to_mili e.1.first = k) = [] := by
        refine List.filter_eq_nil_iff.mpr ?_
        intro e member is
        exact any ⟨e,member,by simpa using is⟩
      have none_later : ((live ttl later h).filter fun e => crono_to_mili e.1.first = k) = [] := by
        refine List.filter_eq_nil_iff.mpr ?_
        intro e member is
        exact any ⟨e,still member,by simpa using is⟩
      rw [none_now,none_later]
      simp
  · intro e member
    show (server.expires _).filter _ = _
    rw [keeps.deadline e (still member)]
    have later_alive := (List.mem_filter.mp member).2
    have := (deadline_iff e).mpr later_alive
    simpa using this

theorem live_concat {ttl : Int} {now : Nat} {h : List (Opening × OPQMeasurement)} {e : Opening × OPQMeasurement}
    (inTime : (now : Int) < e.1.called + ttl * 1000000000) : live ttl now (h ++ [e]) = live ttl now h ++ [e] := by
  rw [live,List.filter_append]
  simp [live,alive,inTime]

/-- A push on a list that is opened, or goes on before its deadline. -/
theorem Keeps.push {wire : Wire Buffer} {boxId : BitVec 32} {ttl : Int} {now : Nat} {h : List (Opening × OPQMeasurement)}
    {server : Server Buffer} (keeps : Keeps wire boxId ttl now h server) {e : Opening × OPQMeasurement}
    (inTime : (now : Int) < e.1.called + ttl * 1000000000) {expires : String → Option Nat}
    (own : expires (crono_to_mili e.1.first).repr = some (e.1.called + (ttl * 1000000000).toNat))
    (others : ∀ e' ∈ live ttl now h, e'.1 = e.1 ∨
      expires (crono_to_mili e'.1.first).repr = server.expires (crono_to_mili e'.1.first).repr) :
    Keeps wire boxId ttl now (h ++ [e])
      ⟨lpush server.redis (crono_to_mili e.1.first).repr (messageOf wire boxId e.2),expires⟩ := by
  constructor
  · rw [live_concat inTime,byKey,List.map_append]
    exact keeps.holds.push (crono_to_mili e.1.first,e.2)
  · rw [live_concat inTime]
    intro e' member
    rcases List.mem_append.mp member with old | new
    · rcases others e' old with same | same
      · show expires _ = _
        rw [same,own]
      · show expires _ = _
        rw [same,keeps.deadline e' old]
    · obtain rfl := List.mem_singleton.mp new
      exact own

/-! ### Runs -/

/-- The writer goes on with the list that was opened last, and the server has
    what is alive of the history. -/
structure Kept (wire : Wire Buffer) (boxId : BitVec 32) (ttl rotation : Int) (opening : Opening)
    (h : List (Opening × OPQMeasurement)) (s : System Buffer) : Prop where
  box_kept : s.serializer.boxId = boxId
  ttl_kept : s.serializer.redisRecordTTL = ttl
  rotation_kept : s.serializer.redisRecordRotation = rotation
  opened : s.serializer.lastRotation = opening.first
  unset : h = [] → opening.first = 0
  current : h ≠ [] → s.serializer.key = (crono_to_mili opening.first).repr ∧ ∃ e ∈ h, e.1 = opening
  since : opening.first ≤ opening.called
  upTo : ∀ e ∈ h, e.1 = opening ∨ crono_to_mili e.1.first < crono_to_mili opening.first
  apart : Apart h
  keeps : Keeps wire boxId ttl s.now h s.server

theorem kept_start (wire : Wire Buffer) (boxId : BitVec 32) (ttl rotation : Int) :
    Kept wire boxId ttl rotation ⟨0,0⟩ [] (.start boxId ttl rotation) where
  box_kept := rfl
  ttl_kept := rfl
  rotation_kept := rfl
  opened := rfl
  unset _ := rfl
  current same := absurd rfl same
  since := Nat.le_refl 0
  upTo _ member := absurd member List.not_mem_nil
  apart _ member := absurd member List.not_mem_nil
  keeps := ⟨⟨fun _ member => absurd member List.not_mem_nil,fun _ => rfl⟩,fun _ member => absurd member List.not_mem_nil⟩

theorem stepAt_boxId {wire : Wire Buffer} {answers : Nat → Bool} {s t : System Buffer} {c : Nat × OPQMeasurement}
    (taken : stepAt wire answers s c = some t) : t.serializer.boxId = s.serializer.boxId := by
  obtain ⟨_,stepped⟩ := Option.ite_none_left_eq_some.mp taken
  cases sent : sendToRedis wire answers s.serializer c.2 with
  | none => simp [sent] at stepped
  | some serializer =>
    simp only [sent,Option.some.injEq] at stepped
    rw [← stepped]
    cases times : c.2.timestamps with
    | nil =>
      unfold sendToRedis at sent
      split at sent
      · cases sent
      · simp only [times,Option.some.injEq] at sent
        rw [sent]
    | cons first rest =>
      rcases sendToRedis_cases times sent with ⟨_,rfl⟩ | ⟨_,rfl⟩ <;> rfl

section
variable {wire : Wire Buffer} {answers : Nat → Bool} {boxId : BitVec 32} {ttl rotation : Int} {delay : Nat}

/-- A call that opens a list. -/
theorem Kept.opens {opening : Opening} {h : List (Opening × OPQMeasurement)} {s t : System Buffer}
    (kept : Kept wire boxId ttl rotation opening h s) (positive : 1 ≤ ttl) {now first : Nat} {m : OPQMeasurement}
    (upTo : s.now ≤ now) (time : t.now = now) (since : first ≤ now) (later : crono_to_mili opening.first < crono_to_mili first)
    (box : t.serializer.boxId = s.serializer.boxId) (key : t.serializer.key = (crono_to_mili first).repr)
    (last : t.serializer.lastRotation = first) (ttl_same : t.serializer.redisRecordTTL = s.serializer.redisRecordTTL)
    (rotation_same : t.serializer.redisRecordRotation = s.serializer.redisRecordRotation)
    (server : t.server = execute now (execute now s.server (.LPUSH t.serializer.key (messageOf wire s.serializer.boxId m)))
      (.EXPIRE t.serializer.key s.serializer.redisRecordTTL)) :
    Kept wire boxId ttl rotation ⟨first,now⟩ (h ++ [(⟨first,now⟩,m)]) t := by
  have purged := kept.keeps.purge positive kept.apart upTo
  -- Every list was opened at an earlier millisecond.
  have before : ∀ e ∈ h, crono_to_mili e.1.first < crono_to_mili first := by
    intro e member
    rcases kept.upTo e member with same | less
    · rw [same]
      exact later
    · exact less.trans later
  refine ⟨box.trans kept.box_kept,ttl_same.trans kept.ttl_kept,rotation_same.trans kept.rotation_kept,last,by simp,
    fun _ => ⟨key,_,List.mem_append_right _ (List.mem_singleton_self _),rfl⟩,since,?_,?_,?_⟩
  · intro e member
    rcases List.mem_append.mp member with old | new
    · exact .inr (before e old)
    · exact .inl (by rw [List.mem_singleton.mp new])
  · intro e member e' member' same
    rcases List.mem_append.mp member with old | new <;> rcases List.mem_append.mp member' with old' | new'
    · exact kept.apart e old e' old' same
    · have less := before e old
      rw [List.mem_singleton.mp new'] at same
      exact absurd same (Nat.ne_of_lt less)
    · have less := before e' old'
      rw [List.mem_singleton.mp new] at same
      exact absurd same.symm (Nat.ne_of_lt less)
    · rw [List.mem_singleton.mp new,List.mem_singleton.mp new']
  · rw [server,time,key,kept.ttl_kept,kept.box_kept,execute_opened _ _ _ _ positive]
    refine purged.push (e := (⟨first,now⟩,m)) (by simp only; omega) (if_pos rfl) ?_
    intro e member
    have apart : (crono_to_mili e.1.first).repr ≠ (crono_to_mili first).repr := by
      intro same
      exact Nat.ne_of_lt (before e (mem_live.mp member).1) (key_injective same)
    exact .inr (if_neg apart)

/-- A call that goes on with a list before it expires. -/
theorem Kept.goes_on {opening : Opening} {h : List (Opening × OPQMeasurement)} {s t : System Buffer}
    (kept : Kept wire boxId ttl rotation opening h s) (positive : 1 ≤ ttl) (nonempty : h ≠ []) {now : Nat} {m : OPQMeasurement}
    (upTo : s.now ≤ now) (time : t.now = now) (inTime : (now : Int) < opening.called + ttl * 1000000000)
    (box : t.serializer.boxId = s.serializer.boxId) (key : t.serializer.key = s.serializer.key)
    (last : t.serializer.lastRotation = s.serializer.lastRotation)
    (ttl_same : t.serializer.redisRecordTTL = s.serializer.redisRecordTTL)
    (rotation_same : t.serializer.redisRecordRotation = s.serializer.redisRecordRotation)
    (server : t.server = execute now s.server (.LPUSH s.serializer.key (messageOf wire s.serializer.boxId m))) :
    Kept wire boxId ttl rotation opening (h ++ [(opening,m)]) t := by
  have purged := kept.keeps.purge positive kept.apart upTo
  obtain ⟨is_key,e₀,listed,opened⟩ := kept.current nonempty
  have going : e₀ ∈ live ttl now h := mem_live.mpr ⟨listed,by rw [opened]; exact inTime⟩
  have deadline := purged.deadline e₀ going
  rw [opened] at deadline
  refine ⟨box.trans kept.box_kept,ttl_same.trans kept.ttl_kept,rotation_same.trans kept.rotation_kept,last.trans kept.opened,
    by simp,fun _ => ⟨key.trans is_key,_,List.mem_append_right _ (List.mem_singleton_self _),rfl⟩,kept.since,?_,?_,?_⟩
  · intro e member
    rcases List.mem_append.mp member with old | new
    · exact kept.upTo e old
    · exact .inl (by rw [List.mem_singleton.mp new])
  · have as_before : ∀ e ∈ h ++ [(opening,m)], ∃ e' ∈ h, e'.1 = e.1 := by
      intro e member
      rcases List.mem_append.mp member with old | new
      · exact ⟨e,old,rfl⟩
      · exact ⟨e₀,listed,by rw [List.mem_singleton.mp new,opened]⟩
    intro e member e' member' same
    obtain ⟨u,old,is⟩ := as_before e member
    obtain ⟨u',old',is'⟩ := as_before e' member'
    rw [← is,← is'] at same ⊢
    exact kept.apart u old u' old' same
  · rw [server,time,is_key,kept.box_kept]
    exact purged.push (e := (opening,m)) inTime deadline fun e _ => .inr rfl

theorem Kept.step (nonneg : 0 ≤ rotation) (longer : (rotation + 1) * 1000000000 + delay ≤ ttl * 1000000000)
    {opening : Opening} {h : List (Opening × OPQMeasurement)} {s t : System Buffer} {now : Nat} {m : OPQMeasurement}
    (kept : Kept wire boxId ttl rotation opening h s) (filled : Filled m) (late : Late rotation m)
    (timely : firstOf m ≤ now ∧ now ≤ firstOf m + delay) (taken : stepAt wire answers s (now,m) = some t) :
    let opening' := if rotates rotation opening.first (firstOf m) then ⟨firstOf m,now⟩ else opening
    Kept wire boxId ttl rotation opening' (h ++ [(opening',m)]) t := by
  obtain ⟨first,rest,times⟩ := filled.times
  have since := late first (by rw [times]; rfl)
  have isFirst : firstOf m = first := by rw [firstOf,times]; rfl
  have positive : 1 ≤ ttl := by omega
  have box := stepAt_boxId taken
  rw [isFirst] at timely ⊢
  obtain ⟨upTo,time,⟨none,_⟩ | ⟨first',rest',times',does⟩⟩ := stepAt_cases taken
  · rw [times] at none
    cases none
  obtain ⟨rfl,rfl⟩ := List.cons.inj (times.symm.trans times')
  rw [kept.rotation_kept,kept.opened] at does
  rcases does with ⟨opens,key,last,ttl_same,rotation_same,server⟩ | ⟨stays,key,last,ttl_same,rotation_same,server⟩
  · have after := rotates_apart nonneg opens
    simp only [opens,if_true]
    exact kept.opens positive upTo time timely.1 (by omega) box key last ttl_same (rotation_same.trans kept.rotation_kept.symm) server
  · have early := (rotates_iff nonneg).not.mp (by rw [stays]; decide : ¬ rotates rotation opening.first first = true)
    simp only [stays,Bool.false_eq_true,if_false]
    have nonempty : h ≠ [] := by
      intro empty
      rw [kept.unset empty] at early
      omega
    have earlier := kept.since
    exact kept.goes_on positive nonempty upTo time (by omega) box key (last.trans kept.opened.symm) ttl_same
      (rotation_same.trans kept.rotation_kept.symm) server

theorem Kept.run (nonneg : 0 ≤ rotation) (longer : (rotation + 1) * 1000000000 + delay ≤ ttl * 1000000000)
    {calls : List (Nat × OPQMeasurement)} (filled : ∀ c ∈ calls, Filled c.2) (late : ∀ c ∈ calls, Late rotation c.2)
    (timely : Timely delay calls) {opening : Opening} {h : List (Opening × OPQMeasurement)} {s t : System Buffer}
    (kept : Kept wire boxId ttl rotation opening h s) (ran : run (stepAt wire answers) s calls = some t) :
    ∃ opening', Kept wire boxId ttl rotation opening' (h ++ historyFrom rotation opening calls) t := by
  induction calls generalizing opening h s with
  | nil =>
    cases ran
    exact ⟨opening,by simpa [historyFrom] using kept⟩
  | cons c calls ih =>
    obtain ⟨own,filled'⟩ := List.forall_mem_cons.mp filled
    obtain ⟨since,late'⟩ := List.forall_mem_cons.mp late
    obtain ⟨near,timely'⟩ := List.forall_mem_cons.mp timely
    obtain ⟨u,taken,rest⟩ := run_cons_inv ran
    obtain ⟨opening',after⟩ := ih filled' late' timely' (kept.step nonneg longer own since near taken) rest
    exact ⟨opening',by simpa [historyFrom] using after⟩

end

/-- Every measurement of a history is late enough for the first rotation. -/
theorem late_of_chronicle {rotation : Int} {ms : List OPQMeasurement} (chronicle : Chronicle rotation ms) :
    ∀ m ∈ ms, Late rotation m := by
  intro m listed first stamp
  have member : first ∈ times ms := mem_times listed (List.mem_of_mem_head? stamp)
  obtain ⟨earliest,stamps,all⟩ := List.exists_cons_of_ne_nil (List.ne_nil_of_mem member)
  have since := chronicle.late earliest (by rw [all]; rfl)
  have ordered := chronicle.ordered
  rw [all] at ordered member
  rcases List.mem_cons.mp member with rfl | behind
  · omega
  · have := (List.pairwise_cons.mp ordered).1 first behind
    omega

/-- A list is opened by its first measurement, and gone on with for `rotation` seconds. -/
theorem historyFrom_opened {rotation : Int} (nonneg : 0 ≤ rotation) {opening : Opening} {calls : List (Nat × OPQMeasurement)}
    (filled : ∀ c ∈ calls, Filled c.2) (ordered : (opening.first :: times (calls.map Prod.snd)).Pairwise (· ≤ ·)) :
    ∀ e ∈ historyFrom rotation opening calls,
      e.1.first ≤ firstOf e.2 ∧ (firstOf e.2 : Int) < e.1.first + (rotation + 1) * 1000000000 := by
  induction calls generalizing opening with
  | nil => simp [historyFrom]
  | cons c calls ih =>
    obtain ⟨own,filled'⟩ := List.forall_mem_cons.mp filled
    obtain ⟨first,rest,stamps⟩ := own.times
    have isFirst : firstOf c.2 = first := by rw [firstOf,stamps]; rfl
    have all : times ((c :: calls).map Prod.snd) = first :: (rest ++ times (calls.map Prod.snd)) := by
      rw [List.map_cons,times,List.flatMap_cons,stamps]
      rfl
    rw [all] at ordered
    obtain ⟨since,order⟩ := List.pairwise_cons.mp ordered
    obtain ⟨since_first,order'⟩ := List.pairwise_cons.mp order
    have up := since first (List.mem_cons_self ..)
    have later := (List.pairwise_append.mp order').2.1
    rw [historyFrom,isFirst]
    by_cases opens : rotates rotation opening.first first = true
    · simp only [opens,if_true]
      refine List.forall_mem_cons.mpr ⟨?_,ih filled' (List.pairwise_cons.mpr ⟨?_,later⟩)⟩
      · rw [isFirst]
        exact ⟨Nat.le_refl _,by simp only; omega⟩
      · exact fun t member => since_first t (List.mem_append_right _ member)
    · have early := (rotates_iff nonneg).not.mp opens
      simp only [opens,Bool.false_eq_true,if_false]
      refine List.forall_mem_cons.mpr ⟨?_,ih filled' (List.pairwise_cons.mpr ⟨?_,later⟩)⟩
      · rw [isFirst]
        exact ⟨up,not_le.mp early⟩
      · exact fun t member => up.trans (since_first t (List.mem_append_right _ member))

/-- Lists are opened up to the delay after the timestamps that they are named by. -/
theorem historyFrom_called {rotation : Int} {delay : Nat} {opening : Opening}
    (near : opening.first ≤ opening.called ∧ opening.called ≤ opening.first + delay) {calls : List (Nat × OPQMeasurement)}
    (timely : Timely delay calls) : ∀ e ∈ historyFrom rotation opening calls,
      e.1.first ≤ e.1.called ∧ e.1.called ≤ e.1.first + delay := by
  induction calls generalizing opening with
  | nil => simp [historyFrom]
  | cons c calls ih =>
    obtain ⟨own,timely'⟩ := List.forall_mem_cons.mp timely
    rw [historyFrom]
    split_ifs
    · exact List.forall_mem_cons.mpr ⟨own,ih own timely'⟩
    · exact List.forall_mem_cons.mpr ⟨near,ih near timely'⟩

section
variable {wire : Wire Buffer} {answers : Nat → Bool} {boxId : BitVec 32} {ttl rotation : Int} {delay : Nat}
  {calls : List (Nat × OPQMeasurement)}

theorem filled_calls (chronicle : Chronicle rotation (calls.map Prod.snd)) : ∀ c ∈ calls, Filled c.2 :=
  fun _ member => chronicle.filled _ (List.mem_map_of_mem member)

/-- What is known of the opening of each list. -/
theorem history_opened (chronicle : Chronicle rotation (calls.map Prod.snd)) (timely : Timely delay calls) :
    ∀ e ∈ history rotation calls,
      (e.1.first ≤ firstOf e.2 ∧ (firstOf e.2 : Int) < e.1.first + (rotation + 1) * 1000000000) ∧
      e.1.first ≤ e.1.called ∧ e.1.called ≤ e.1.first + delay :=
  fun e member => ⟨historyFrom_opened chronicle.nonneg (filled_calls chronicle)
    (List.pairwise_cons.mpr ⟨fun t _ => Nat.zero_le t,chronicle.ordered⟩) e member,
    historyFrom_called ⟨Nat.le_refl 0,Nat.zero_le _⟩ timely e member⟩

theorem kept_history (longer : (rotation + 1) * 1000000000 + delay ≤ ttl * 1000000000)
    (chronicle : Chronicle rotation (calls.map Prod.snd)) (timely : Timely delay calls) {s : System Buffer}
    (ran : run (stepAt wire answers) (.start boxId ttl rotation) calls = some s) :
    ∃ opening, Kept wire boxId ttl rotation opening (history rotation calls) s :=
  (kept_start wire boxId ttl rotation).run chronicle.nonneg longer (filled_calls chronicle)
    (fun _ member => late_of_chronicle chronicle _ (List.mem_map_of_mem member)) timely ran

theorem Kept.holds (positive : 1 ≤ ttl) {opening : Opening} {h : List (Opening × OPQMeasurement)} {s : System Buffer}
    (kept : Kept wire boxId ttl rotation opening h s) {now : Nat} (later : s.now ≤ now) :
    Holds wire boxId (byKey (live ttl now h)) (s.server.purge now).redis :=
  (kept.keeps.purge positive kept.apart later).holds

/-- At any time after the last call the lists hold exactly the messages, the
    newest first, whose list was opened within the time to live; that is each
    measurement for at least the time to live less the rotation, and none for
    longer than the time to live and the delay of the calls. -/
theorem retained (longer : (rotation + 1) * 1000000000 + delay ≤ ttl * 1000000000)
    (chronicle : Chronicle rotation (calls.map Prod.snd)) (timely : Timely delay calls) {s : System Buffer}
    (ran : run (stepAt wire answers) (.start boxId ttl rotation) calls = some s) {now : Nat} (later : s.now ≤ now) :
    Holds wire boxId (byKey (live ttl now (history rotation calls))) (s.server.purge now).redis ∧
    ∀ e ∈ history rotation calls,
      ((now : Int) < firstOf e.2 + (ttl - (rotation + 1)) * 1000000000 → e ∈ live ttl now (history rotation calls)) ∧
      (e ∈ live ttl now (history rotation calls) → (now : Int) < firstOf e.2 + delay + ttl * 1000000000) := by
  have nonneg := chronicle.nonneg
  obtain ⟨_,kept⟩ := kept_history longer chronicle timely ran
  refine ⟨kept.holds (by omega) later,?_⟩
  intro e member
  obtain ⟨⟨since,upTo⟩,after,near⟩ := history_opened chronicle timely e member
  constructor
  · intro young
    exact mem_live.mpr ⟨member,by omega⟩
  · intro still
    have fresh := (mem_live.mp still).2
    omega

end

/-- Measurements at 100, 105, 112 and 119 seconds, each sent two seconds later. -/
def fourCalls : List (Nat × OPQMeasurement) :=
  [(102000000000,measurementAt 100000000000),(107000000000,measurementAt 105000000000),
    (114000000000,measurementAt 112000000000),(121000000000,measurementAt 119000000000)]

theorem fourCalls_chronicle : Chronicle 10 (fourCalls.map Prod.snd) := by
  refine ⟨by decide,?_,by decide,?_⟩
  · intro m listed
    simp only [fourCalls,List.map_cons,List.map_nil,List.mem_cons,List.not_mem_nil,or_false] at listed
    rcases listed with rfl | rfl | rfl | rfl <;> exact ⟨by decide,rfl⟩
  · intro t first
    cases first
    decide

theorem fourCalls_timely : Timely 2000000000 fourCalls := by
  intro c listed
  simp only [fourCalls,List.mem_cons,List.not_mem_nil,or_false] at listed
  rcases listed with rfl | rfl | rfl | rfl <;> exact ⟨by decide,by decide⟩

theorem fourCalls_run : ∃ s, run (stepAt .plain fun _ => true) (.start 2 100 10) fourCalls = some s ∧
    s.now = 121000000000 := ⟨_,rfl,rfl⟩

/-- At 205 seconds the first list, which was opened at 102, has expired. -/
theorem retained_four : ∃ s, run (stepAt .plain fun _ => true) (.start 2 100 10) fourCalls = some s ∧
    Holds .plain 2 (byKey (live 100 205000000000 (history 10 fourCalls))) (s.server.purge 205000000000).redis ∧
    ∀ e ∈ history 10 fourCalls,
      ((205000000000 : Int) < firstOf e.2 + (100 - (10 + 1)) * 1000000000 → e ∈ live 100 205000000000 (history 10 fourCalls)) ∧
      (e ∈ live 100 205000000000 (history 10 fourCalls) → (205000000000 : Int) < firstOf e.2 + 2000000000 + 100 * 1000000000) := by
  obtain ⟨s,ran,now⟩ := fourCalls_run
  exact ⟨s,ran,retained (by decide) fourCalls_chronicle fourCalls_timely ran (by rw [now]; decide)⟩

/-- A call that comes later than the settings allow: the list has expired, and is
    created again for good. -/
theorem late_call : ∃ s, run (stepAt .plain fun _ => true) (.start 2 11 10)
      [(100000000000,measurementAt 100000000000),(112000000000,measurementAt 110900000000)] = some s ∧
    s.server.redis.keys = [Nat.repr 100000] ∧ s.server.expires (Nat.repr 100000) = none := ⟨_,rfl,rfl,rfl⟩

end Opqbox.Retention
