import Ripcord.AcceptedKeys
import Ripcord.AccessLog
import Ripcord.Announcements
import Ripcord.Attribution
import Ripcord.AuditTrail
import Ripcord.BucketMaterial
import Ripcord.CachedAnswers
import Ripcord.Coherence
import Ripcord.ColumnLimits
import Ripcord.DeleteRaces
import Ripcord.EngineTotality
import Ripcord.FieldOverrides
import Ripcord.Fleet
import Ripcord.HashTtl
import Ripcord.HiddenFlags
import Ripcord.IneffectiveRules
import Ripcord.KeyAvailability
import Ripcord.KillSwitch
import Ripcord.LiveUpdates
import Ripcord.LostCounter
import Ripcord.Provenance
import Ripcord.RefreshBodies
import Ripcord.RefreshTraffic
import Ripcord.RejectedUpdates
import Ripcord.Rollouts
import Ripcord.RowLocks
import Ripcord.RuleTies
import Ripcord.RulesEditor
import Ripcord.RulesetEndpoint
import Ripcord.SdkRefresh
import Ripcord.SelfHealing
import Ripcord.StaleClients
import Ripcord.StreamUrl
import Ripcord.TornReads
import Ripcord.UnknownFlags
import Ripcord.VariantMerge
import Ripcord.VariantsEditor
import Ripcord.Watch
