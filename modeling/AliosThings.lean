import AliosThings.Alcs.Resource
import AliosThings.Awss.Chinese
import AliosThings.Coap.SendList
import AliosThings.Fs.Ramfs
import AliosThings.Infra.Timer
import AliosThings.Json.Parser
import AliosThings.Kv.GcFaults
import AliosThings.Kv.GcWait
import AliosThings.Kv.Position
import AliosThings.Kv.Reinit
import AliosThings.Mqtt.Read
import AliosThings.Mqtt.Topic
import AliosThings.Ota.Resume
import AliosThings.Rhino.Batched
import AliosThings.Rhino.BufQueue
import AliosThings.Rhino.Event
import AliosThings.Rhino.PriorityInheritance
import AliosThings.Rhino.Queue
import AliosThings.Rhino.ReadyQueue
import AliosThings.Rhino.Semaphore
import AliosThings.Rhino.Tickless
import AliosThings.Rhino.Time
import AliosThings.Rhino.TimersOnTime
import AliosThings.Rhino.WorkDelay
import AliosThings.Sal.AtRsp
import AliosThings.Sal.HdlcFrame
import AliosThings.Sal.Ports
import AliosThings.Sal.Recv
import AliosThings.Udata.Service
import AliosThings.Utility.HashTable
import AliosThings.Vfs.Files
import AliosThings.Yloop.Dispatch
