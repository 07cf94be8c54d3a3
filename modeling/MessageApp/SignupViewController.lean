import MessageApp.Information

/-!
# `SignupViewController`

A new account gets an unread buffer with one field, which the next write deletes again, and a
document under its email. Deleting a field is the one write of the app that is neither `setData` nor
`delete`, so the writes of a whole process are `AppWrite`s.
-/

namespace MessageApp

inductive AppWrite
  | write (w : Write)
  /-- `updateData([field: FieldValue.delete()])` -/
  | deleteField (path : DocPath) (field : String)
deriving DecidableEq

namespace AppWrite

def path : AppWrite → DocPath
  | write w => w.path
  | deleteField p _ => p

/-- An update of a document that does not exist fails. -/
def act : AppWrite → Option Doc → Option Doc
  | write w, doc => w.act doc
  | deleteField _ k, doc => doc.map (·.erase k)

/-- What a merge assigns to a field. -/
def entry : AppWrite → String → Option Value
  | write w, k => w.entry k
  | deleteField _ _, _ => none

instance : DocWrite AppWrite DocPath (Option Doc) := ⟨path, act⟩

@[simp] theorem path_write (w : Write) : DocWrite.path (write w) = DocWrite.path w := rfl

@[simp] theorem act_write (w : Write) (doc : Option Doc) :
    DocWrite.act (write w) doc = DocWrite.act w doc := rfl

@[simp] theorem path_deleteField (p : DocPath) (k : String) :
    DocWrite.path (deleteField p k) = p := rfl

@[simp] theorem act_deleteField (p : DocPath) (k : String) (doc : Option Doc) :
    DocWrite.act (deleteField p k) doc = doc.map (·.erase k) := rfl

end AppWrite

/-- What the completion of `createUser` writes. The display name is set by `commitChanges`, which
completes later and may fail. -/
def signupClick (myUser : User) : List AppWrite :=
  let email := match myUser.email with
    | none => Value.null
    | some email => .string email
  [.write (.setData (.buffer myUser.uid) (.ofList [("userID", Value.string myUser.uid)]) false),
    .deleteField (.buffer myUser.uid) "userID",
    .write (.setData (.user myUser.uid) (.ofList [("email", email), ("username", email)]) false)]

end MessageApp
