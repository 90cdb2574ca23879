import RecordStore.Calendar
import RecordStore.Text.Json

/-!
# Stamps

A stamp tells where, when and with which version a storage was created.
-/

namespace RecordStore

/-- What a stamp tells about the machine. -/
structure Host where
  /-- The operating system. -/
  platform : String
  architecture : String
  /-- The offset of local time from universal time. -/
  timeZone : String

/-- Where, when and with which version a storage was created. -/
structure Stamp where
  platform : String
  architecture : String
  systemEncoding : String
  systemTimeZone : String
  package : String
  version : String
  /-- The time of creation, in universal time. -/
  createdAt : String
deriving DecidableEq

namespace Stamp

/-- The stamp that a storage gets on a machine now. -/
def collect (host : Host) (now : DateTime) : Stamp where
  platform := host.platform
  architecture := host.architecture
  systemEncoding := "utf-8"
  systemTimeZone := host.timeZone
  package := "ajiaco-core"
  version := "0.1.0"
  createdAt := now.timestampText

/-- The stamp as a JSON object. -/
def toJson (stamp : Stamp) : String :=
  jsonObject [
    ("platform", stamp.platform),
    ("architecture", stamp.architecture),
    ("system_encoding", stamp.systemEncoding),
    ("system_time_zone", stamp.systemTimeZone),
    ("package", stamp.package),
    ("version", stamp.version),
    ("utc_created_at", stamp.createdAt)]

end Stamp

end RecordStore
