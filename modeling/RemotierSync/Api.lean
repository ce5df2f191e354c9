import RemotierSync.Record

/-!
# Requests, responses, errors and configuration

The bodies that cross the network, the errors a handler answers with, and the part of the
configuration that the handlers read.
-/

namespace RemotierSync

inductive Error where
  | notFound
  | emailTaken
  | badCredentials
  | unauthorised
  | registrationClosed
  | rateLimited
  | badRequest (message : String)
  | db
  | internal (detail : String)
deriving DecidableEq, Repr

/-- A page holds at least one record. -/
structure Config where
  registrationOpen : Bool
  accessTtlSecs : ℤ
  maxRecordBytes : ℕ
  maxPage : ℤ
  maxPage_pos : 1 ≤ maxPage

/-- What `from_env` builds, with registration as the environment says. -/
def Config.fromEnv (registrationOpen : Bool) : Config where
  registrationOpen := registrationOpen
  accessTtlSecs := 3600
  maxRecordBytes := 256 * 1024
  maxPage := 500
  maxPage_pos := by decide

structure SealedBlob where
  nonce : String
  ciphertext : String
deriving DecidableEq, Repr

structure KeyMaterial where
  accountPublic : String
  wrappedAccountSecret : SealedBlob
  wrappedPersonalKey : SealedBlob
deriving DecidableEq, Repr

structure RegisterRequest where
  email : String
  authKey : String
  keyMaterial : KeyMaterial
  recoveryMaterial : KeyMaterial
  recoveryAuthKey : String
  deviceId : String
  deviceName : String
deriving DecidableEq, Repr

structure LoginRequest where
  email : String
  authKey : String
  deviceId : String
  deviceName : String
deriving DecidableEq, Repr

structure RecoverRequest where
  email : String
  recoveryAuthKey : String
  deviceId : String
  deviceName : String
deriving DecidableEq, Repr

structure RewrapRequest where
  authKey : String
  keyMaterial : KeyMaterial
  recoveryAuthKey : String
  recoveryMaterial : KeyMaterial
deriving DecidableEq, Repr

structure Session where
  accountId : String
  email : String
  accessToken : String
  refreshToken : String
  expiresIn : ℤ
  keyMaterial : KeyMaterial
deriving DecidableEq, Repr

structure PullResponse where
  envelopes : List Envelope
  cursor : ℤ
  more : Bool
deriving DecidableEq, Repr

inductive RejectReason where
  | implausibleClock
  | notAMember
  | stale
  | tooLarge
deriving DecidableEq, Repr

structure Accepted where
  id : String
  kind : String
  seq : ℤ
deriving DecidableEq, Repr

structure Rejected where
  id : String
  kind : String
  reason : RejectReason
deriving DecidableEq, Repr

structure PushResponse where
  accepted : List Accepted
  rejected : List Rejected
  cursor : ℤ
deriving DecidableEq, Repr

structure UserLookup where
  userId : String
  email : String
  accountPublic : String
deriving DecidableEq, Repr

/-- A share as it is listed: `email` is the other party's address. -/
structure Share where
  groupId : String
  ownerId : String
  userId : String
  email : String
  wrappedGroupKey : String
  createdAt : ℤ
deriving DecidableEq, Repr

structure ShareRequest where
  groupId : String
  userId : String
  wrappedGroupKey : String
deriving DecidableEq, Repr

structure Device where
  deviceId : String
  name : String
  lastSeen : ℤ
deriving DecidableEq, Repr

structure InstanceInfo where
  name : String
  version : String
  formatVersions : List UInt16
  registrationOpen : Bool
deriving DecidableEq

structure ApiError where
  code : String
  message : String
deriving DecidableEq, Repr

structure Caller where
  accountId : String
deriving DecidableEq, Repr

end RemotierSync
