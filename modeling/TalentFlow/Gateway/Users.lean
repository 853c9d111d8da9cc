import TalentFlow.Gateway.World

/-!
# Gateway.Users

`UsersService`: the accounts of the people who sign in. A soft-deleted user keeps its row.
-/

namespace TalentFlow

open Async

/-- `Omit<User, 'password'>` -/
structure SafeUser where
  id : String
  email : String
  fullName : String
  role : Role
  createdAt : Time
  updatedAt : Time
  deletedAt : Option Time
  deriving DecidableEq

def User.safe (u : User) : SafeUser where
  id := u.id
  email := u.email
  fullName := u.fullName
  role := u.role
  createdAt := u.createdAt
  updatedAt := u.updatedAt
  deletedAt := u.deletedAt

structure UpdateUserDto where
  fullName : Field String := .absent

namespace UsersService

def create (email password fullName : String) (role : Role) : Prog Api User :=
  prisma (.userCreate { email, password, fullName, role })

def findByEmail (email : String) : Prog Api (Option User) := prisma (.userFindUnique (.email email))

def findById (id : String) : Prog Api (Option User) := prisma (.userFindUnique (.id id))

/-- The live user `updateProfile`, `updateRole` and `softDeleteUser` start from. -/
def findLiveOrThrow (targetId : String) : Prog Api User := do
  let existing ← prisma (.userFindUnique (.live targetId))
  match existing with
  | some user => return user
  | none => throw (.notFound ("User with ID \"" ++ targetId ++ "\" not found"))

def findOneProfile (id : String) : Prog Api SafeUser := do
  let user ← findLiveOrThrow id
  return user.safe

def updateProfile (targetId requesterId requesterRole : String) (data : UpdateUserDto) :
    Prog Api SafeUser := do
  if targetId ≠ requesterId ∧ requesterRole ≠ "ADMIN" then
    throw (.forbidden "You can only update your own profile")
  let _existing ← findLiveOrThrow targetId
  let updated ← prisma (.userUpdate targetId { fullName := data.fullName })
  return updated.safe

def updateRole (targetId : String) (newRole : Role) : Prog Api SafeUser := do
  let _existing ← findLiveOrThrow targetId
  let updated ← prisma (.userUpdate targetId { role := .value newRole })
  return updated.safe

def softDeleteUser (targetId : String) : Prog Api Unit := do
  let _existing ← findLiveOrThrow targetId
  let deletedAt ← dateNow
  let _updated ← prisma (.userUpdate targetId { deletedAt := .value deletedAt })

end UsersService

end TalentFlow
