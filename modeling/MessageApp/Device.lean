import MessageApp.ChatViewController

/-!
# One process

A process hosts one account after another. Its globals, the view controllers it has opened and
every listener they registered live on through sign-outs; a callback may run at any time.
-/

namespace MessageApp

structure Device where
  currentUser : Option User := none
  globals : Globals := {}
  /-- every `ChatViewController` opened so far -/
  instances : List ChatViewController := []
  /-- the blocks on the main queue, each with its instance -/
  blocks : List (ℕ × Block) := []
  /-- the accounts on whose `Buffer` a listener is registered -/
  bufferListeners : List String := []

namespace Device

inductive Event
  /-- `LoginClick`, and the listeners the first screens register -/
  | signIn (user : User)
  /-- `AccountViewController.SignoutClick` -/
  | signoutClick
  /-- `LoginViewController.Signout` -/
  | signout
  | bufferSnapshot (uid : String) (doc : Option Doc)
  | openChat (id : String) (isGroupChat : Bool)
  | conversationSnapshot (i : ℕ) (doc : Option Doc)
  | roomMemberFetched (i : ℕ) (doc : Option Doc)
  | finishEditing (i : ℕ) (text t : String)
  | voiceCompletion (i : ℕ) (url : Option String) (t : String)
  | runBlock (j : ℕ)

/-- The event is a send. -/
def Event.isSend : Event → Bool
  | .finishEditing _ _ _ | .voiceCompletion _ _ _ => true
  | _ => false

/-- `bufferChat = snapshot!.data() as! [String : [String]]`, in `RecentViewController.listener`
and in `AccountViewController.listener`. -/
def bufferListener (g : Globals) (doc : Option Doc) : Option Globals := do
  some { g with bufferChat := ← (← doc).dict? }

/-- An instance has sent: its block, if any, goes on the main queue. -/
def afterSend (d : Device) (i : ℕ) (r : ChatViewController × List Write × Option Block) :
    Device × List Write :=
  ({ d with instances := d.instances.set i r.1, blocks := d.blocks ++ (r.2.2.map (i, ·)).toList },
    r.2.1)

/-- The process after an event, with the writes it issues, in order; `none` where the event
cannot happen or the code traps. -/
def step (d : Device) : Event → Option (Device × List Write)
  | .signIn user =>
    some ({ d with
      currentUser := some user, bufferListeners := d.bufferListeners ++ [user.uid] }, [])
  | .signoutClick => some ({ d with currentUser := none }, [])
  | .signout =>
    some ({ d with currentUser := none, globals := { d.globals with cacheMessage := ∅ } }, [])
  | .bufferSnapshot uid doc =>
    if uid ∈ d.bufferListeners then do
      let g ← bufferListener d.globals doc
      some ({ d with globals := g }, [])
    else none
  | .openChat id isGroupChat => do
    let myUser ← d.currentUser
    let g := { d.globals with information := ⟨id, isGroupChat⟩ }
    let (self, g, ws) ← ChatViewController.viewWillAppear g myUser.uid
    some ({ d with globals := g, instances := d.instances ++ [self] }, ws)
  | .conversationSnapshot i doc => do
    let self ← d.instances[i]?
    if self.docRefc.isSome then do
      let (cacheMessage, self) ← self.conversationListener d.globals.cacheMessage doc
      some ({ d with
        globals := { d.globals with cacheMessage := cacheMessage }
        instances := d.instances.set i self }, [])
    else none
  | .roomMemberFetched i doc => do
    let self ← d.instances[i]?
    if self.chatisGroupChat then do
      let self ← self.roomMemberFetched doc
      some ({ d with instances := d.instances.set i self }, [])
    else none
  | .finishEditing i text t => do
    some (d.afterSend i (← (← d.instances[i]?).finishEditing d.currentUser text t))
  | .voiceCompletion i url t => do
    some (d.afterSend i (← (← d.instances[i]?).voiceCompletion d.currentUser url t))
  | .runBlock j => do
    let (i, b) ← d.blocks[j]?
    some ({ d with blocks := d.blocks.eraseIdx j }, b.run (← d.instances[i]?))

end Device

end MessageApp
