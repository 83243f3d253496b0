import ShaP2Pool.Server.P2PoolGrpc

/-!
# The template stores between two requests

`get_new_block` updates the queue of keys and the template store under two locks, one after the
other, and its timeout may drop the request while it waits for the second. The handlers of
`P2PoolGrpc` run from end to end; here a request is cut at the locks, so that requests interleave. A
request that is dropped before its first lock, or fails, has touched neither structure.
-/

namespace ShaP2Pool

/-- What the template requests of one algorithm share. -/
structure TemplateDesk where
  templateStore : KeyedMap Template.tariHash
  /-- a queue of keys, oldest first -/
  listOfTemplates : List FixedHash
  /-- the templates of the requests that wait for the lock of the store -/
  storing : List Template
  /-- the keys of the templates handed out, most recent first; the source has no such record -/
  handedOut : List FixedHash

/-- What can happen at a desk. -/
inductive DeskEvent
  /-- a request puts the key of its template into the queue -/
  | list (template : Template)
  /-- a waiting request stores its template and answers the miner -/
  | store (request : Nat)
  /-- the timeout drops a waiting request -/
  | cancel (request : Nat)
  /-- a miner submits a header whose template is looked up under a key -/
  | submit (tariHash : FixedHash)

namespace TemplateDesk

def new : TemplateDesk where
  templateStore := KeyedMap.empty
  listOfTemplates := []
  storing := []
  handedOut := []

def step (d : TemplateDesk) : DeskEvent → TemplateDesk
  | .list template =>
    { d with
      listOfTemplates := ShaP2PoolGrpc.pushTemplate d.listOfTemplates template.tariHash
      storing := d.storing ++ [template] }
  | .store request =>
    match d.storing[request]? with
    | none => d
    | some template =>
      { d with
        templateStore := d.templateStore.insert template
        storing := d.storing.eraseIdx request
        handedOut := template.tariHash :: d.handedOut }
  | .cancel request => { d with storing := d.storing.eraseIdx request }
  | .submit _ => d

/-- The desks of the two algorithms; a request goes to that of its algorithm. -/
def stepAt (desks : PowAlgorithm → TemplateDesk) (event : PowAlgorithm × DeskEvent) :
    PowAlgorithm → TemplateDesk :=
  Function.update desks event.1 ((desks event.1).step event.2)

end TemplateDesk

end ShaP2Pool
