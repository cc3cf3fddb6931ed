import Registrar.Directory.Contact
import Registrar.Engine.Write

/-!
# The directory in a store

A directory lives in three collections. Contacts are assigned to categories, filed in phone books,
and given secretaries and a manager; categories are filed in phone books. Each of these operations
names the relation that it is about and leaves the rest to the engine.

* `makeCollections`: makes the collections.
* `Contact.assignCategory` and its like: one reference of a contact.
-/

namespace Registrar.Directory

/-- The collections of a directory, each after the others it refers to. -/
def collectionNames : List String :=
  [Book.schema.collection, Category.schema.collection, Contact.schema.collection]

/-- **Makes the collections** one after the other. -/
def makeCollections : StoreM Unit :=
  collectionNames.forM fun name => StoreM.call (.createCollection name)

namespace Contact

variable (c : Collection Contact) (caller : Caller) (contact : Uuid)

/-- Puts a contact into a category. -/
def assignCategory (category : Uuid) : OperationM Bool :=
  c.link caller contact "category_ids" category

/-- Takes a contact out of a category. -/
def withdrawCategory (category : Uuid) : OperationM Bool :=
  c.unlink caller contact "category_ids" category

/-- Files a contact in a phone book. -/
def file (book : Uuid) : OperationM Bool :=
  c.link caller contact "phone_book_ids" book

/-- Takes a contact out of a phone book. -/
def unfile (book : Uuid) : OperationM Bool :=
  c.unlink caller contact "phone_book_ids" book

/-- Gives a contact one more secretary. -/
def appointSecretary (secretary : Uuid) : OperationM Bool :=
  c.link caller contact "secretary_ids" secretary

/-- Takes a secretary from a contact. -/
def dismissSecretary (secretary : Uuid) : OperationM Bool :=
  c.unlink caller contact "secretary_ids" secretary

/-- Gives a contact a manager, or takes the manager away. -/
def assignManager (manager : Option Uuid) : OperationM Bool :=
  c.refer caller contact "manager_id" manager

end Contact

namespace Category

variable (c : Collection Category) (caller : Caller) (category : Uuid)

/-- Makes a category available in a phone book. -/
def file (book : Uuid) : OperationM Bool :=
  c.link caller category "phone_book_ids" book

/-- Takes a category out of a phone book. -/
def unfile (book : Uuid) : OperationM Bool :=
  c.unlink caller category "phone_book_ids" book

end Category

end Registrar.Directory
