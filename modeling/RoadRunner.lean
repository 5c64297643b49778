import RoadRunner.Boltdb.Delayed
import RoadRunner.Boltdb.Durable
import RoadRunner.Boltdb.Counters
import RoadRunner.Boltdb.Gate
import RoadRunner.Jobs.Recycled
import RoadRunner.Jobs.Requeue
import RoadRunner.Tcp.Events
import RoadRunner.Websockets.Locking
import RoadRunner.Http.Sendfile
import RoadRunner.Memory.Counters
import RoadRunner.Memory.Limit
import RoadRunner.Broker.Foreign
import RoadRunner.Amqp.Listening
import RoadRunner.Jobs.Registry
import RoadRunner.Amqp.Acks
import RoadRunner.Http.Sharing
import RoadRunner.Config.Migration
import RoadRunner.Memorykv.Updates
import RoadRunner.Boltkv.Restart
import RoadRunner.Http.Form
import RoadRunner.Http.Limit
import RoadRunner.Http.Status
import RoadRunner.Http.Forwarded
import RoadRunner.Grpc.Server
import RoadRunner.Boltdb.Readable
import RoadRunner.Boltdb.Commits
import RoadRunner.Nats.Lifecycle
import RoadRunner.Http.Extensions
import RoadRunner.Http.Internal
import RoadRunner.Redis.Pubsub
import RoadRunner.Websockets.Mirror
import RoadRunner.Websockets.Fragments
import RoadRunner.Boltdb.Due
import RoadRunner.Boltdb.Failures
import RoadRunner.Memory.GiveUp
import RoadRunner.Memorykv.Expiry
import RoadRunner.Kv.Expiry
import RoadRunner.Metrics.Registry
import RoadRunner.Http.Names
import RoadRunner.Http.CacheControl
import RoadRunner.Http.Etag
import RoadRunner.Websockets.Origin
import RoadRunner.Config.Flags
import RoadRunner.Http.Redirect
import RoadRunner.Reload.Ignored
import RoadRunner.Grpc.Errors
import RoadRunner.Grpc.Php.Apart
import RoadRunner.Grpc.Php.Generate
import RoadRunner.Metrics.Config
import RoadRunner.Service.Handlers
import RoadRunner.Sqs.Delivery
import RoadRunner.Beanstalk.Pool
import RoadRunner.Beanstalk.Delivery
import RoadRunner.Nats.Delivery
import RoadRunner.Broker.Lifecycle
import RoadRunner.Reload.Serve
import RoadRunner.Websockets.Pipeline
import RoadRunner.Kv.Rpc
