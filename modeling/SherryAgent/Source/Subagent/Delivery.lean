import SherryAgent.Source.Subagent.Completion

/-!
# Delivery of a completion

`announce/delivery.py`, `announce/dispatch.py` and `announce/idempotency.py`. A task is one
call of `deliver_subagent_announcement`, from the announce flow, a retry scan or the effect
worker, on the copy of the record its caller holds. The event bus, the registry writes and
the answers are kept as logs.
-/

namespace SherryAgent.Source.Subagent

open SherryAgent.Library SherryAgent.Source

structure AnnounceConfig extends DeliveryConfig where
  announceRetryMax : Nat := 3
  deliveryMirrorMax : Nat := 5000

/-- `AnnounceDeliveryResult`. -/
structure AnnounceDeliveryResult where
  success : Bool
  error : Option String := none
  suspended : Bool := false
  dispatchPath : List String := []
  terminal : Bool := false
  deriving DecidableEq

/-- A call: the record, `_from_effects`, and `effects_execution_enabled()` when it comes. -/
structure DeliveryCall where
  run : SubagentRunRecord
  fromEffects : Bool := false
  execution : Bool := false
  deriving DecidableEq

/-- Where a call is answered. -/
inductive DeliveryRoute where
  | effects | deliveredKeys | mirror | notRequired | hardCap | dispatch
  deriving DecidableEq, Repr

structure DeliveryReport where
  call : DeliveryCall
  route : DeliveryRoute
  result : AnnounceDeliveryResult
  deriving DecidableEq

/-- A completion message on the event bus. -/
structure Publication where
  runId : String
  generation : Nat
  requesterSessionKey : String
  deriving DecidableEq

/-- The logs grow at the front; `evicted` are the keys `_delivered_keys` has dropped. -/
structure AnnounceStore where
  deliveredKeys : List String := []
  deliveryMirror : List (String × String) := []
  intents : List String := []
  written : List SubagentRunRecord := []
  published : List Publication := []
  reports : List DeliveryReport := []
  evicted : List String := []

/-- Where a call waits: `targeting` in the target hook, `resuming` the task flow,
`attempting` before attempt number `attempt`, `routing` on the third path. -/
inductive AnnounceTask where
  | called (call : DeliveryCall)
  | targeting (call : DeliveryCall) (run : SubagentRunRecord) (pendingCount : Nat)
  | resuming (call : DeliveryCall) (run : SubagentRunRecord) (pendingCount : Nat)
  | attempting (call : DeliveryCall) (run attempted : SubagentRunRecord) (attempt pendingCount : Nat)
  | routing (call : DeliveryCall) (run : SubagentRunRecord)
  | returned

/-- The environment; `order` is the order in which the set of keys is listed. -/
inductive AnnounceInput where
  | counted (pendingCount : Nat) (now : Time)
  | redirect (requesterSessionKey : Option String)
  | next (now : Time)
  | published
  | raised (error : String) (now : Time)
  | routed (now : Time) (order : List String)

/-- `build_idempotency_key`. -/
def buildIdempotencyKey (runId : String) (generation : Nat) : String :=
  "subagent_announce:" ++ runId ++ ":gen:" ++ toString generation

inductive DeliveryErrorClass where
  | permanent | transient | unknown
  deriving DecidableEq, Repr

namespace Announce

/-! ## Errors -/

/-- Case folding as `re.IGNORECASE` does it against an ASCII letter. -/
def foldChar (c : Char) : Char :=
  if c.toNat == 0x130 || c.toNat == 0x131 then 'i'
  else if c.toNat == 0x17F then 's'
  else if c.toNat == 0x212A then 'k'
  else c.toLower

/-- The words at the front of the text, with `\s*` between them. -/
def matchWords : List String → List Char → Bool
  | [], _ => true
  | word :: rest, text =>
    word.toList.isPrefixOf text &&
      matchWords rest ((text.drop word.toList.length).dropWhile PyText.isSpace)

def search (words : List String) (text : String) : Bool :=
  (text.toList.map foldChar).tails.any (matchWords words)

def permanentPatterns : List (List String) :=
  [["not", "found"], ["permission", "denied"], ["unauthorized"], ["forbidden"],
    ["invalid", "session"], ["session", "expired"], ["channel", "not", "found"], ["enoent"]]

def transientPatterns : List (List String) :=
  [["timeout"], ["connection", "reset"], ["connection", "refused"], ["connection", "aborted"],
    ["temporarily", "unavailable"], ["rate", "limit"], ["queue", "full"], ["retry"],
    ["econnreset"], ["econnrefused"], ["etimedout"]]

/-- `classify_delivery_error`. -/
def classifyDeliveryError (error : String) : DeliveryErrorClass :=
  if permanentPatterns.any (search · error) then .permanent
  else if transientPatterns.any (search · error) then .transient
  else .unknown

/-! ## Deduplication -/

def idempotencyKey (run : SubagentRunRecord) : String :=
  buildIdempotencyKey run.runId run.generation

/-- The key of `_check_delivery_mirror`. -/
def contentKey (run : SubagentRunRecord) : String :=
  run.childSessionKey ++ ":" ++ toString run.generation ++ ":" ++
    String.ofList ((run.completion.resultText.getD "").toList.take 200)

variable (config : AnnounceConfig)

/-- `_is_already_delivered`. -/
def isAlreadyDelivered (store : AnnounceStore) (run : SubagentRunRecord) : Bool :=
  store.deliveredKeys.contains (idempotencyKey run)

def mirrors (store : AnnounceStore) (run : SubagentRunRecord) : Bool :=
  store.deliveryMirror.any fun entry => entry.1 == contentKey run

/-- `_check_delivery_mirror` of content that is not in the mirror: it is recorded, and the
oldest half is dropped when there are too many. -/
def recordContent (store : AnnounceStore) (run : SubagentRunRecord) : AnnounceStore :=
  let entries := store.deliveryMirror ++ [(contentKey run, run.runId)]
  { store with deliveryMirror :=
      if config.deliveryMirrorMax < entries.length then entries.drop (config.deliveryMirrorMax / 2)
      else entries }

def insertKey (keys : List String) (key : String) : List String :=
  if keys.contains key then keys else key :: keys

/-- `_mark_delivered`; the first 5000 keys of the listed set are dropped when there are
more than 10000. -/
def markDelivered (store : AnnounceStore) (run : SubagentRunRecord) (order : List String) :
    Option AnnounceStore :=
  let keys := insertKey store.deliveredKeys (idempotencyKey run)
  if keys.length ≤ 10000 then some { store with deliveredKeys := keys }
  else if order.isPerm keys then
    some { store with
      deliveredKeys := order.drop 5000
      evicted := order.take 5000 ++ store.evicted }
  else none

/-! ## A call -/

/-- `set_run_durable`. -/
def write (store : AnnounceStore) (run : SubagentRunRecord) : AnnounceStore :=
  { store with written := run :: store.written }

def answer (store : AnnounceStore) (call : DeliveryCall) (route : DeliveryRoute)
    (result : AnnounceDeliveryResult) : AnnounceStore × AnnounceTask :=
  ({ store with reports := { call, route, result } :: store.reports }, .returned)

/-- `deliver_subagent_announcement` hands the call to the effect worker. -/
def handsOver (call : DeliveryCall) : Bool := call.execution && !call.fromEffects

/-- `deliver_subagent_announcement` up to its first suspension. -/
def deliver (store : AnnounceStore) (call : DeliveryCall) (pendingCount : Nat) (now : Time) :
    AnnounceStore × AnnounceTask :=
  let run := call.run
  if handsOver call then
    answer { store with intents := ("run:" ++ run.runId) :: store.intents } call .effects
      { success := true }
  else if isAlreadyDelivered store run then answer store call .deliveredKeys { success := true }
  else if mirrors store run then answer store call .mirror { success := true }
  else
    let store := recordContent config store run
    if !run.completion.required then
      answer (write store (run.markDeliveryDelivered now)) call .notRequired { success := true }
    else if config.deliverySuspendHardCap ≤ pendingCount then
      answer (write store (run.markDeliverySuspended now)) call .hardCap
        { success := false, suspended := true, error := some "Hard cap exceeded" }
    else
      (write store (run.markDeliveryInProgress now),
        .targeting call (run.markDeliveryInProgress now) pendingCount)

/-- `_deliver_subagent_announcement_impl` after a dispatch that has not succeeded;
`run_announce_dispatch` then reports every strategy as failed. -/
def giveUp (store : AnnounceStore) (call : DeliveryCall) (run : SubagentRunRecord)
    (pendingCount : Nat) (now : Time) : AnnounceStore × AnnounceTask :=
  let result : AnnounceDeliveryResult :=
    { success := false
      error := some "All dispatch strategies failed"
      dispatchPath := ["direct-primary"]
      terminal := true }
  if run.shouldDiscardDelivery config.maxAnnounceRetryCount config.announceHardExpiryMs now then
    answer (write store (run.markDeliveryDiscarded "max_retries_or_expiry")) call .dispatch result
  else if config.deliverySuspendSoftCap ≤ pendingCount then
    answer (write store (run.markDeliverySuspended now)) call .dispatch
      { result with suspended := true }
  else answer store call .dispatch result

/-- `publish_internal` of the message to the record's requester. -/
def publish (store : AnnounceStore) (run : SubagentRunRecord) : AnnounceStore :=
  { store with published :=
      { runId := run.runId
        generation := run.generation
        requesterSessionKey := run.requesterSessionKey } :: store.published }

/-- The end of a delivery that has published. -/
def settle (store : AnnounceStore) (call : DeliveryCall) (run : SubagentRunRecord) (now : Time)
    (order : List String) : Option (AnnounceStore × AnnounceTask) :=
  (markDelivered store run order).map fun store =>
    answer (write store (run.markDeliveryDelivered now)) call .dispatch
      { success := true, dispatchPath := ["direct-primary"] }

/-- One turn of the loop of `_deliver_with_retry` that raises. -/
def attemptRaised (store : AnnounceStore) (call : DeliveryCall) (run attempted : SubagentRunRecord)
    (attempt pendingCount : Nat) (error : String) (now : Time) : AnnounceStore × AnnounceTask :=
  if classifyDeliveryError error = .permanent then giveUp config store call run pendingCount now
  else
    (write store (attempted.markDeliveryFailed error now),
      .attempting call run (attempted.markDeliveryFailed error now) (attempt + 1) pendingCount)

/-- What a call does from where it waits to where it waits next. -/
def resume (store : AnnounceStore) (task : AnnounceTask) (input : AnnounceInput) :
    Option (AnnounceStore × AnnounceTask) :=
  match task, input with
  | .called call, .counted pendingCount now => some (deliver config store call pendingCount now)
  | .targeting call run pendingCount, .redirect (some requesterSessionKey) =>
    some (write store { run with requesterSessionKey },
      .resuming call { run with requesterSessionKey } pendingCount)
  | .targeting call run pendingCount, .redirect none =>
    some (store, .resuming call run pendingCount)
  | .resuming call run pendingCount, .next _ =>
    some (store, .attempting call run run 0 pendingCount)
  | .attempting call run attempted attempt _, .published =>
    if attempt < config.announceRetryMax then some (publish store attempted, .routing call run)
    else none
  | .attempting call run attempted attempt pendingCount, .raised error now =>
    if attempt < config.announceRetryMax then
      some (attemptRaised config store call run attempted attempt pendingCount error now)
    else none
  | .attempting call run _ attempt pendingCount, .next now =>
    if config.announceRetryMax ≤ attempt then some (giveUp config store call run pendingCount now)
    else none
  | .routing call run, .routed now order => settle store call run now order
  | _, _ => none

def starts : AnnounceTask → Bool
  | .called _ => true
  | _ => false

/-- The calls of one process. -/
def program : Tasks.Program AnnounceStore AnnounceTask AnnounceInput where
  starts := starts
  resume := resume config
  restart _ := none

end Announce

end SherryAgent.Source.Subagent
