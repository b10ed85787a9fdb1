import Mathlib.Algebra.Ring.Int.Defs
import ThinkWatch.Lib.Expiring

/-!
# The bucketed sliding-window limiter

`crates/common/src/limits/sliding.rs`: the scripts `LUA_ADMIT` and `LUA_RECORD`, and the Rust
around them. A counter is one Redis hash whose fields are bucket ids; a script call is atomic,
so a call is a function on the store.

Lua numbers are doubles. Every value the scripts compute from a Unix time in milliseconds is an
integer far below 2^53, where a double is exact, so integers model them. `math.floor (a / b)`
with `b ≥ 1` is Lean's `a / b`. The Redis clock that ages keys and the `now_ms` the callers
pass are one clock.
-/

namespace ThinkWatch.Limits

open Lib

/-! ## Counter hashes -/

/--
A field of a counter hash. `HINCRBY` writes bucket ids in decimal; `other` is any text that
`tonumber` does not read.
-/
inductive Field where
  | bucket (b : Int)
  | other (text : String)
deriving DecidableEq, Repr

/-- The field is a bucket id from `lo` to `hi`. -/
def Field.inRange (lo hi : Int) : Field → Bool
  | .bucket b => decide (lo ≤ b) && decide (b ≤ hi)
  | .other _ => false

/-- A Redis hash in `HGETALL` order. No field occurs twice. -/
structure Hash where
  fields : List (Field × Int)
  nodup : (fields.map Prod.fst).Nodup

namespace Hash

def empty : Hash := ⟨[], List.nodup_nil⟩

/-- The entries after `HINCRBY f n`. -/
def incrFields (l : List (Field × Int)) (f : Field) (n : Int) : List (Field × Int) :=
  if f ∈ l.map Prod.fst then l.map (fun e => if e.1 = f then (e.1, e.2 + n) else e)
  else l ++ [(f, n)]

theorem map_fst_incr (l : List (Field × Int)) (f : Field) (n : Int) :
    (l.map (fun e => if e.1 = f then (e.1, e.2 + n) else e)).map Prod.fst = l.map Prod.fst := by
  rw [List.map_map]
  refine List.map_congr_left fun e _ => ?_
  simp only [Function.comp_apply]
  split <;> rfl

theorem incrFields_nodup {l : List (Field × Int)} (h : (l.map Prod.fst).Nodup) (f : Field)
    (n : Int) : ((incrFields l f n).map Prod.fst).Nodup := by
  unfold incrFields
  split
  · rw [map_fst_incr]; exact h
  · next hf =>
    rw [List.map_append, List.nodup_append]
    refine ⟨h, by simp, ?_⟩
    intro a ha b hb he
    simp only [List.map_cons, List.map_nil, List.mem_singleton] at hb
    exact hf (hb ▸ he ▸ ha)

/-- `HINCRBY` on the hash. -/
def incr (h : Hash) (f : Field) (n : Int) : Hash :=
  ⟨incrFields h.fields f n, incrFields_nodup h.nodup f n⟩

/-- `HDEL` on the hash. -/
def without (h : Hash) (fs : List Field) : Hash :=
  ⟨h.fields.filter (fun e => decide (e.1 ∉ fs)),
    h.nodup.sublist (List.filter_sublist.map _)⟩

/-- The sum of the buckets from `lo` to `hi`. -/
def sumIn (h : Hash) (lo hi : Int) : Int :=
  ((h.fields.filter (fun e => e.1.inRange lo hi)).map Prod.snd).sum

end Hash

/-! ## Redis commands on counters -/

abbrev Redis := Store String Hash

/-- `HGETALL key`. An absent key reads as the empty hash. -/
def hgetall (s : Redis) (t : Int) (k : String) : Hash := (s.get t k).getD Hash.empty

/-- `HINCRBY key field n`: keeps the deadline of a present key, makes an absent one anew. -/
def hincrby (s : Redis) (t : Int) (k : String) (f : Field) (n : Int) : Redis :=
  match s k with
  | some e =>
    if e.live t then s.put k (some ⟨e.value.incr f n, e.expireAt⟩)
    else s.put k (some ⟨Hash.empty.incr f n, none⟩)
  | none => s.put k (some ⟨Hash.empty.incr f n, none⟩)

/-- `HDEL key fields...`. A hash left without fields is removed with its key. -/
def hdel (s : Redis) (t : Int) (k : String) (fs : List Field) : Redis :=
  match s k with
  | some e =>
    if e.live t then
      s.put k (if (e.value.without fs).fields = [] then none
        else some ⟨e.value.without fs, e.expireAt⟩)
    else s
  | none => s

/-! ## `LUA_ADMIT` -/

/-- `sliding::Counter`: one key of the call with its three arguments. -/
structure Counter where
  key : String
  bucketSecs : Int
  maxCount : Int
  charge : Int
deriving DecidableEq, Repr

/-- The bucket a moment falls in: `math.floor (math.floor (now_ms / 1000) / bucket_secs)`. -/
def bucketAt (bucketSecs nowMs : Int) : Int := nowMs / 1000 / bucketSecs

/-- The locals `counts`, `stale` and `sum` of the first loop. -/
structure Scan where
  counts : List (Int × Int)
  stale : List Field
  sum : Int

/-- One field of the `HGETALL` reply. -/
def scanField (oldest current : Int) (acc : Scan) (e : Field × Int) : Scan :=
  match e.1 with
  | .other _ => { acc with stale := acc.stale ++ [e.1] }
  | .bucket b =>
    if b < oldest then { acc with stale := acc.stale ++ [e.1] }
    else if b ≤ current then
      { acc with counts := (b, e.2) :: acc.counts, sum := acc.sum + e.2 }
    else acc

def scan (oldest current : Int) (h : Hash) : Scan :=
  h.fields.foldl (scanField oldest current) ⟨[], [], 0⟩

/--
The `while` loop that looks for the bucket whose leaving makes room. It starts at `oldest` and
runs while `b < current`, which is 59 rounds at most.
-/
def roomBucket (counts : List (Int × Int)) (need : Int) : Nat → Int → Int → Int
  | 0, _, b => b
  | n + 1, freed, b =>
    let freed := freed + (counts.lookup b).getD 0
    if need ≤ freed then b else roomBucket counts need n freed (b + 1)

/-- State of the first loop: the store, `sums`, `limiting` and `wait_ms`. -/
structure Pass where
  store : Redis
  sums : List Int
  limiting : Int
  waitMs : Int

/-- One round of the first loop. -/
def checkRule (nowMs : Int) (acc : Pass) (c : Counter) : Pass :=
  let current := bucketAt c.bucketSecs nowMs
  let oldest := current - 59
  let sc := scan oldest current (hgetall acc.store nowMs c.key)
  let store := if sc.stale.length > 0 then hdel acc.store nowMs c.key sc.stale else acc.store
  let sums := acc.sums ++ [sc.sum]
  if sc.sum ≥ c.maxCount then
    let b := roomBucket sc.counts (sc.sum - c.maxCount + 1) 59 0 oldest
    let w := (b + 60) * c.bucketSecs * 1000 - nowMs
    if w > acc.waitMs then ⟨store, sums, sums.length, w⟩
    else ⟨store, sums, acc.limiting, acc.waitMs⟩
  else ⟨store, sums, acc.limiting, acc.waitMs⟩

/-- One round of the charging loop, on a counter and its sum. -/
def chargeRule (nowMs : Int) (acc : Redis × List Int) (c : Counter × Int) : Redis × List Int :=
  if c.1.charge > 0 then
    let s := hincrby acc.1 nowMs c.1.key (.bucket (bucketAt c.1.bucketSecs nowMs)) c.1.charge
    (s.expire nowMs c.1.key (c.1.bucketSecs * 120 * 1000), acc.2 ++ [c.2 + c.1.charge])
  else (acc.1, acc.2 ++ [c.2])

/-- The whole script: the new store and the reply `{allowed, limiting, wait_ms, sums...}`. -/
def luaAdmit (s : Redis) (nowMs : Int) (counters : List Counter) : Redis × List Int :=
  let pass := counters.foldl (checkRule nowMs) ⟨s, [], 0, 0⟩
  if pass.limiting > 0 then (pass.store, [0, pass.limiting, pass.waitMs] ++ pass.sums)
  else
    let out := (counters.zip pass.sums).foldl (chargeRule nowMs) (pass.store, [])
    (out.1, [1, 0, 0] ++ out.2)

/-! ## Around the script -/

/-- `sliding::CheckOutcome`. -/
structure CheckOutcome where
  allowed : Bool
  exceededIndex : Option Nat
  retryAfterSecs : Int
  currents : List Int
deriving DecidableEq, Repr

def CheckOutcome.open : CheckOutcome := ⟨true, none, 0, []⟩

def retryAfterSecs (waitMs : Int) : Int := max ((max waitMs 0 + 999) / 1000) 1

def parseAdmitReply (reply : List Int) : CheckOutcome :=
  let allowed : Bool := (reply[0]?).getD 1 == 1
  let limiting : Int := (reply[1]?).getD 0
  let waitMs : Int := max ((reply[2]?).getD 0) 0
  { allowed := allowed
    exceededIndex := if !allowed && decide (limiting ≥ 1) then some (limiting - 1).toNat else none
    retryAfterSecs := if allowed then 0 else retryAfterSecs waitMs
    currents := reply.drop 3 }

/-- `admit_counters_at`, with Redis up. No counters, no script. -/
def admitCountersAt (s : Redis) (counters : List Counter) (nowMs : Int) : Redis × CheckOutcome :=
  if counters.isEmpty then (s, CheckOutcome.open)
  else
    let r := luaAdmit s nowMs counters
    (r.1, parseAdmitReply r.2)

/-- One round of `LUA_RECORD`. -/
def recordRule (nowMs amount : Int) (s : Redis) (c : String × Int) : Redis :=
  (hincrby s nowMs c.1 (.bucket (bucketAt c.2 nowMs)) amount).expire nowMs c.1 (c.2 * 120 * 1000)

def luaRecord (s : Redis) (nowMs amount : Int) (counters : List (String × Int)) : Redis :=
  counters.foldl (recordRule nowMs amount) s

/-- `record_counters_at`. -/
def recordCountersAt (s : Redis) (counters : List (String × Int)) (amount nowMs : Int) : Redis :=
  if counters.isEmpty || decide (amount ≤ 0) then s else luaRecord s nowMs amount counters

/-- `window_sum`: what a usage read at `now_secs` reports. -/
def windowSum (buckets : Hash) (nowSecs bucketSecs : Int) : Int :=
  if bucketSecs ≤ 0 then 0
  else
    let current := nowSecs / bucketSecs
    let oldest := current - (60 - 1)
    ((buckets.fields.filter (fun e => e.1.inRange oldest current)).map Prod.snd).sum

end ThinkWatch.Limits
